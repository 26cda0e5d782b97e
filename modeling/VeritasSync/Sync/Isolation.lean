import VeritasSync.Lib.Noninterference
import VeritasSync.Sync.Announcement

/-!
# What one target can do to the others

A source serves all its targets in one loop: `Pump` sends at most one chunk of each upload of each
peer, `RefreshSource` the manifest to each peer that may have it, `Start` the HELLO to each.  A
round for one peer only ever changes that peer's members, but an exception in it ends the loop, and
the peers after it are not served.

`Source.but device s` is the state with everything that belongs to one target left out.  Frames from
that target leave it alone whatever they say (`same_receive`), and every other operation is a
function of it as long as the rounds for that target do not throw (`coupled_step`).
`targets_isolated` puts the two together: what the other targets are sent does not depend on that
target.

The shared loops are the whole difficulty.  If each target had its own, isolation would be a matter
of frames; as it is, a target is also affected by the exceptions of the rounds before its own.  So
the theorem has a condition, on the state before each loop, under which no round for the target in
question throws, and the condition is about that target alone: its uploads can be served, and its
transport takes what it is given.
-/

set_option autoImplicit false

namespace VeritasSync

open Exec (Within Keeps Same Coupled)
open OneWay (Manifest)

namespace UploadSession

variable {H : Type} [ContentHash H]

/-- `NextForTransport` has nothing to do, or finds the next requested chunk in the source file. -/
def Serves (session : UploadSession H) (folder : Folder) (bufferedBytes : Nat) : Prop :=
  ∀ range ∈ session.requestedRanges.head?, resumeBelowBytes ≤ bufferedBytes ∨
    ∃ current, folder.readFile session.source.sourcePath = some current ∧
      range.firstChunk < (current.length + logicalChunkSize - 1) / logicalChunkSize ∧
      range.firstChunk * logicalChunkSize +
          min logicalChunkSize (current.length - range.firstChunk * logicalChunkSize) ≤
        (session.source.stream.getD current).length

theorem Serves.ok {session : UploadSession H} {folder : Folder} {bufferedBytes : Nat}
    (h : session.Serves folder bufferedBytes) :
    ∃ next, (session.nextForTransport folder bufferedBytes).1 = .ok next := by
  rw [nextForTransport]
  split
  · exact ⟨none, rfl⟩
  · rename_i range rest hranges
    split
    · exact ⟨none, rfl⟩
    · rename_i hbuffered
      obtain hbuffered' | ⟨current, hcurrent, hindex, hlength⟩ := h range (by rw [hranges]; rfl)
      · exact absurd hbuffered' hbuffered
      · have hread : ∃ chunk, (session.source.readChunk folder range.firstChunk).1 = .ok chunk := by
          rw [ChunkSource.readChunk, hcurrent]
          simp only [ge_iff_le, Nat.not_le.mpr hindex, if_false]
          rw [if_neg (by rw [List.length_take, List.length_drop]; omega)]
          exact ⟨_, rfl⟩
        obtain ⟨chunk, hchunk⟩ := hread
        rcases hresult : session.source.readChunk folder range.firstChunk with ⟨e | c, source⟩
        · rw [hresult] at hchunk
          cases hchunk
        · exact ⟨some c, rfl⟩

end UploadSession

namespace MultiTarget

variable {H : Type}

/-! ## Leaving one target out

The state without one target still has its place in the list, since the order in which the others
are served depends on it.  Everything else about it is forgotten, and the environment loses what its
transport would report. -/

/-- The environment without what belongs to a device. -/
def Environment.but (env : Environment) (device : DeviceId) : Environment :=
  { env with
    buffered := fun d k => if d = device then 0 else env.buffered d k
    refuses := fun d k => if d = device then false else env.refuses d k }

/-- What stays of a peer that is left out: its place in the list. -/
def Peer.forget (peer : Peer H) : Peer H := ⟨peer.config, false, false, [], none⟩

/-- A peer, or its place. -/
def Peer.but (device : DeviceId) (peer : Peer H) : Peer H :=
  if peer.config.deviceId = device then peer.forget else peer

@[simp] theorem Peer.but_config (device : DeviceId) (peer : Peer H) :
    (peer.but device).config = peer.config := by
  rw [Peer.but]
  split
  · rfl
  · rfl

theorem Peer.but_of_ne {device : DeviceId} {peer : Peer H} (h : peer.config.deviceId ≠ device) :
    peer.but device = peer := if_neg h

namespace Source

/-- The source without what belongs to a device. -/
def but (device : DeviceId) (s : Source H) : Source H :=
  { s with
    env := s.env.but device
    peers := s.peers.map (Peer.but device)
    sent := s.sent.filter fun entry => entry.1 ≠ device }

section View

variable {a d : DeviceId} {s t : Source H}

theorem devices_but : (s.but a).devices = s.devices := by
  simp only [devices, but, List.map_map]
  exact List.map_congr_left fun peer _ => congrArg PeerConfig.deviceId (Peer.but_config a peer)

theorem configs_but : (s.but a).peers.map Peer.config = s.peers.map Peer.config := by
  simp only [but, List.map_map]
  exact List.map_congr_left fun peer _ => Peer.but_config a peer

theorem deviceId_of_findPeer {peer : Peer H} (h : s.findPeer d = some peer) :
    peer.config.deviceId = d := by
  have hdevice := List.find?_some h
  exact of_decide_eq_true hdevice

theorem findPeer_but (h : d ≠ a) : (s.but a).findPeer d = s.findPeer d := by
  rw [findPeer, findPeer, but]
  induction s.peers with
  | nil => rfl
  | cons peer rest ih =>
    rw [List.map_cons, List.find?_cons, List.find?_cons, Peer.but_config]
    split
    · rename_i hdevice
      rw [Peer.but_of_ne]
      rw [of_decide_eq_true hdevice]
      exact h
    · exact ih

theorem sentTo_but (h : d ≠ a) : (s.but a).sentTo d = s.sentTo d := by
  rw [sentTo, sentTo, but, List.filter_filter]
  congr 1
  refine List.filter_congr fun entry _ => ?_
  by_cases hentry : entry.1 = d
  · simp [hentry, h]
  · simp [hentry]

/-- The peer of a device that is left out is changed. -/
theorem but_updatePeer_self {f : Peer H → Peer H} (hf : ∀ peer, (f peer).config = peer.config) :
    Within (Same (but a)) (updatePeer a f) := by
  refine Exec.within_update fun s => ?_
  simp only [Same, but, List.map_map]
  congr 1
  refine List.map_congr_left fun peer _ => ?_
  simp only [Function.comp, Peer.but]
  split
  · rename_i hdevice
    rw [if_pos (by rw [hf]; exact hdevice), Peer.forget, Peer.forget, hf]
  · rfl

/-- A frame is sent to the device that is left out. -/
theorem but_send_self (frame : OneWay.Frame H) : Within (Same (but a)) (send a frame) := by
  refine Exec.within_bind Exec.within_state fun s => Exec.within_ite (fun _ => ?_) fun _ => ?_
  · exact Exec.within_raise _
  · refine Exec.within_update fun s => ?_
    simp [Same, but, List.filter_append]

/-! ## Operations for the other targets -/

theorem findPeer_eq (h : d ≠ a) (hst : s.but a = t.but a) : s.findPeer d = t.findPeer d := by
  rw [← findPeer_but h, hst, findPeer_but h]

theorem refuses_eq (h : d ≠ a) (hst : s.but a = t.but a) : s.env.refuses d = t.env.refuses d := by
  have henv := congrArg (fun x : Source H => x.env.refuses d) hst
  simpa [but, Environment.but, h] using henv

theorem buffered_eq (h : d ≠ a) (hst : s.but a = t.but a) :
    s.env.buffered d = t.env.buffered d := by
  have henv := congrArg (fun x : Source H => x.env.buffered d) hst
  simpa [but, Environment.but, h] using henv

theorem coupled_send (h : d ≠ a) (frame : OneWay.Frame H) (hst : s.but a = t.but a) :
    Coupled (but a) (send d frame) (send d frame) s t := by
  refine Exec.coupled_state (Exec.coupled_ite ?_ (fun _ => Exec.coupled_raise _ hst) fun _ => ?_)
  · rw [refuses_eq h hst, ← sentTo_but h (s := s), hst, sentTo_but h]
  · refine Exec.coupled_update ?_
    have hsent : ∀ s : Source H, ({ s with sent := s.sent ++ [(d, frame)] } : Source H).but a =
        { s.but a with sent := (s.but a).sent ++ [(d, frame)] } := by
      intro s
      simp [but, List.filter_append, h]
    rw [hsent, hsent, hst]

theorem coupled_updatePeer (h : d ≠ a) {f : Peer H → Peer H}
    (hf : ∀ peer, (f peer).config = peer.config) (hst : s.but a = t.but a) :
    Coupled (but a) (updatePeer d f) (updatePeer d f) s t := by
  refine Exec.coupled_update ?_
  let g : Peer H → Peer H := fun peer => if peer.config.deviceId = d then f peer else peer
  have hpeers : ∀ s : Source H, ({ s with peers := s.peers.map g } : Source H).but a =
      { s.but a with peers := (s.but a).peers.map g } := by
    intro s
    simp only [but, List.map_map]
    congr 1
    refine List.map_congr_left fun peer _ => ?_
    simp only [Function.comp, g, Peer.but_config]
    by_cases hdevice : peer.config.deviceId = d
    · have hne : peer.config.deviceId ≠ a := hdevice ▸ h
      rw [if_pos hdevice, if_pos hdevice, Peer.but_of_ne hne,
        Peer.but_of_ne (by rw [hf]; exact hne)]
    · rw [if_neg hdevice, if_neg hdevice]
  exact (hpeers s).trans ((congrArg (fun x : Source H => { x with peers := x.peers.map g })
    hst).trans
    (hpeers t).symm)

theorem coupled_sendHello {peer : PeerConfig} (h : peer.deviceId ≠ a) (hst : s.but a = t.but a) :
    Coupled (but a) (sendHello peer) (sendHello peer) s t := by
  refine Exec.coupled_state ?_
  have hconfig : s.config = t.config := (congrArg Source.config hst :)
  rw [hconfig]
  exact coupled_send h _ hst

theorem coupled_sendManifest (h : d ≠ a) (hst : s.but a = t.but a) :
    Coupled (but a) (sendManifest d) (sendManifest d) s t := by
  have hmanifest : s.sourceManifest = t.sourceManifest := (congrArg Source.sourceManifest hst :)
  refine Exec.coupled_state (Exec.coupled_bind (Exec.coupled_check ?_ hst) fun _ s' t' hst' => ?_)
  · rw [hmanifest]
  · rw [hmanifest]
    exact coupled_send h _ hst'

variable [ContentHash H]

omit [ContentHash H] in
theorem coupled_announce (h : d ≠ a) (hst : s.but a = t.but a) :
    Coupled (but a) (announce d) (announce d) s t := by
  refine Exec.coupled_state ?_
  rw [findPeer_eq h hst]
  cases t.findPeer d with
  | none => exact Exec.coupled_pure _ hst
  | some peer => exact Exec.coupled_when Iff.rfl (fun _ => coupled_sendManifest h hst) hst

theorem coupled_scan (hst : s.but a = t.but a) : Coupled (but a) scan scan s t := by
  have hfolder : s.folder = t.folder := (congrArg Source.folder hst :)
  have hmtime : s.env.mtime = t.env.mtime := (congrArg (fun x : Source H => x.env.mtime) hst :)
  refine Exec.coupled_bind (Exec.coupled_check (by rw [hfolder, hmtime]) hst) ?_
  intro snapshot s t hst
  have hdb : s.db = t.db := (congrArg Source.db hst :)
  have hconfig : s.config = t.config := (congrArg Source.config hst :)
  have hrevision : s.manifestRevision = t.manifestRevision :=
    (congrArg Source.manifestRevision hst :)
  have hnow : s.env.nowMs = t.env.nowMs := (congrArg (fun x : Source H => x.env.nowMs) hst :)
  have huuid : s.uuid = t.uuid := (congrArg Source.uuid hst :)
  have hused : s.uuidsUsed = t.uuidsUsed := (congrArg Source.uuidsUsed hst :)
  have hk : ∀ r : (ReconcileResult × Nat) × Database H,
      ({ s with db := r.2 } : Source H).but a = ({ t with db := r.2 } : Source H).but a :=
    fun r => (congrArg (fun x : Source H => { x with db := r.2 }) hst :)
  refine Exec.coupled_bind (Exec.coupled_atomic (k := fun r => (r.1, { s with db := r.2 }))
    (l := fun r => (r.1, { t with db := r.2 })) rfl ?_ (fun r => ⟨rfl, hk r⟩) hst) ?_
  · rw [hdb, hconfig, hrevision, hnow, huuid, hused]
  · intro r s t hst
    refine Exec.coupled_bind (Exec.coupled_update ?_) fun _ s t hst => ?_
    · exact congrArg (fun x : Source H =>
        { x with
          uuidsUsed := r.2
          manifestRevision := x.manifestRevision + 1
          sourceManifest := ⟨x.manifestRevision + 1, OneWay.announcedEntries snapshot⟩
          sourceFiles := Node.sourceFilesOf (snapshot.takeWhile OneWay.isHashed) }) hst
    · refine Exec.coupled_ite Iff.rfl (fun _ => Exec.coupled_raise _ hst) fun _ => ?_
      exact Exec.coupled_update (congrArg (fun x : Source H =>
        { x with scans := x.scans ++ [x.sourceManifest] }) hst)

theorem coupled_pumpUploads (h : d ≠ a) (uploads done : List (PendingUpload H))
    (hst : s.but a = t.but a) :
    Coupled (but a) (pumpUploads d done uploads) (pumpUploads d done uploads) s t := by
  induction uploads generalizing done s t with
  | nil => exact Exec.coupled_pure _ hst
  | cons upload rest ih =>
    refine Exec.coupled_state ?_
    have hfolder : s.folder = t.folder := (congrArg Source.folder hst :)
    rw [hfolder, buffered_eq h hst]
    refine Exec.coupled_bind (coupled_updatePeer h (fun _ => rfl) hst) fun _ s t hst => ?_
    split
    · exact Exec.coupled_raise _ hst
    · rename_i next _
      have hchunk : Coupled (but a) (sendChunk d next) (sendChunk d next) s t := by
        cases next with
        | none => exact Exec.coupled_pure _ hst
        | some chunk => exact coupled_send h _ hst
      refine Exec.coupled_bind hchunk fun _ s t hst => ?_
      refine Exec.coupled_ite Iff.rfl (fun _ => ih _ hst) fun _ => ?_
      exact Exec.coupled_bind (coupled_updatePeer h (fun _ => rfl) hst) fun _ s t hst => ih _ hst

theorem coupled_pumpPeer (h : d ≠ a) (hst : s.but a = t.but a) :
    Coupled (but a) (pumpPeer d) (pumpPeer d) s t := by
  refine Exec.coupled_state ?_
  rw [findPeer_eq h hst]
  cases t.findPeer d with
  | none => exact Exec.coupled_pure _ hst
  | some peer => exact Exec.coupled_when Iff.rfl (fun _ => coupled_pumpUploads h _ _ hst) hst

theorem coupled_receiveData (h : d ≠ a) (frame : OneWay.Frame H) (hst : s.but a = t.but a) :
    Coupled (but a) (receiveData d frame) (receiveData d frame) s t := by
  cases frame with
  | fileRequest request =>
    refine Exec.coupled_state ?_
    have hfiles : s.sourceFiles = t.sourceFiles := (congrArg Source.sourceFiles hst :)
    have hfolder : s.folder = t.folder := (congrArg Source.folder hst :)
    rw [hfiles, hfolder]
    cases OneWay.findSource t.sourceFiles request.fileHash with
    | none => exact coupled_send h _ hst
    | some source =>
      refine Exec.coupled_bind (coupled_updatePeer h (fun _ => rfl) hst) fun _ s t' hst => ?_
      cases OneWay.openSession source t.folder request with
      | error e => exact coupled_send h _ hst
      | ok session => exact coupled_updatePeer h (fun _ => rfl) hst
  | cancel cancel => exact coupled_updatePeer h (fun _ => rfl) hst
  | _ => exact Exec.coupled_raise _ hst

theorem coupled_receive (h : d ≠ a) (channel : Channel) (frame : OneWay.Frame H)
    (hst : s.but a = t.but a) :
    Coupled (but a) (receive d channel frame) (receive d channel frame) s t := by
  refine Exec.coupled_state ?_
  rw [← findPeer_eq h hst]
  cases hpeer : s.findPeer d with
  | none => exact Exec.coupled_pure _ hst
  | some peer =>
    have hdevice : peer.config.deviceId ≠ a := by
      rw [deviceId_of_findPeer hpeer]
      exact h
    refine Exec.coupled_orElse ?_ fun _ s t hst => coupled_updatePeer h (fun _ => rfl) hst
    refine Exec.coupled_ite Iff.rfl (fun _ => Exec.coupled_raise _ hst) fun _ => ?_
    cases frame with
    | malformed error => exact Exec.coupled_raise _ hst
    | hello hello =>
      refine Exec.coupled_state ?_
      have hconfig : s.config = t.config := (congrArg Source.config hst :)
      refine Exec.coupled_ite ?_ (fun _ => Exec.coupled_raise _ hst) fun _ => ?_
      · rw [admitsHello, admitsHello, hconfig]
      · refine Exec.coupled_bind (coupled_updatePeer hdevice (fun _ => rfl) hst) fun _ s t hst => ?_
        exact Exec.coupled_bind (coupled_sendHello hdevice hst) fun _ s t hst =>
          coupled_sendManifest hdevice hst
    | _ =>
      refine Exec.coupled_state ?_
      have hstarted : s.started = t.started := (congrArg Source.started hst :)
      refine Exec.coupled_ite ?_ (fun _ => Exec.coupled_raise _ hst) fun _ => ?_
      · rw [hstarted]
      · exact coupled_receiveData hdevice _ hst

omit [ContentHash H] in
theorem coupled_setTargetAvailable (h : d ≠ a) (available : Bool) (hst : s.but a = t.but a) :
    Coupled (but a) (setTargetAvailable d available) (setTargetAvailable d available) s t := by
  refine Exec.coupled_state ?_
  rw [findPeer_eq h hst]
  cases t.findPeer d with
  | none => exact Exec.coupled_pure _ hst
  | some peer =>
    refine Exec.coupled_ite Iff.rfl (fun _ => Exec.coupled_pure _ hst) fun _ => ?_
    refine Exec.coupled_bind (coupled_updatePeer h (fun _ => rfl) hst) fun _ s t hst => ?_
    exact Exec.coupled_when Iff.rfl (fun _ => coupled_sendManifest h hst) hst

/-! ## Operations for the target that is left out -/

omit [ContentHash H] in
theorem but_sendHello_self {peer : PeerConfig} (h : peer.deviceId = a) :
    Within (Same (but (H := H) a)) (sendHello peer) := by
  subst h
  exact Exec.within_bind Exec.within_state fun _ => but_send_self _

omit [ContentHash H] in
theorem but_sendManifest_self : Within (Same (but (H := H) a)) (sendManifest a) :=
  Exec.within_bind Exec.within_state fun _ => Exec.within_bind (Exec.within_check _) fun _ =>
    but_send_self _

omit [ContentHash H] in
theorem but_announce_self : Within (Same (but (H := H) a)) (announce a) := by
  refine Exec.within_bind Exec.within_state fun s => ?_
  split
  · exact Exec.within_pure _
  · exact Exec.within_when fun _ => but_sendManifest_self

theorem but_pumpUploads_self (uploads done : List (PendingUpload H)) :
    Within (Same (but a)) (pumpUploads a done uploads) := by
  induction uploads generalizing done with
  | nil => exact Exec.within_pure _
  | cons upload rest ih =>
    refine Exec.within_bind Exec.within_state fun s => ?_
    refine Exec.within_bind (but_updatePeer_self fun _ => rfl) fun _ => ?_
    split
    · exact Exec.within_raise _
    · rename_i next _
      have hchunk : Within (Same (but a)) (sendChunk a next) := by
        cases next with
        | none => exact Exec.within_pure _
        | some chunk => exact but_send_self _
      refine Exec.within_bind hchunk fun _ => Exec.within_ite (fun _ => ih _) fun _ => ?_
      exact Exec.within_bind (but_updatePeer_self fun _ => rfl) fun _ => ih _

theorem but_pumpPeer_self : Within (Same (but (H := H) a)) (pumpPeer a) := by
  refine Exec.within_bind Exec.within_state fun s => ?_
  split
  · exact Exec.within_pure _
  · exact Exec.within_when fun _ => but_pumpUploads_self _ _

omit [ContentHash H] in
theorem but_setTargetAvailable_self (available : Bool) :
    Within (Same (but (H := H) a)) (setTargetAvailable a available) := by
  refine Exec.within_bind Exec.within_state fun s => ?_
  split
  · exact Exec.within_pure _
  · refine Exec.within_ite (fun _ => Exec.within_pure _) fun _ => ?_
    exact Exec.within_bind (but_updatePeer_self fun _ => rfl) fun _ =>
      Exec.within_when fun _ => but_sendManifest_self

theorem but_receiveData_self (frame : OneWay.Frame H) :
    Within (Same (but a)) (receiveData a frame) := by
  cases frame with
  | fileRequest request =>
    refine Exec.within_bind Exec.within_state fun s => ?_
    split
    · exact but_send_self _
    · refine Exec.within_bind (but_updatePeer_self fun _ => rfl) fun _ => ?_
      split
      · exact but_send_self _
      · exact but_updatePeer_self fun _ => rfl
  | cancel cancel => exact but_updatePeer_self fun _ => rfl
  | _ => exact Exec.within_raise _

/-- **Frames from a target** change nothing that does not belong to it, whatever they say. -/
theorem but_receive_self (channel : Channel) (frame : OneWay.Frame H) :
    Within (Same (but a)) (receive a channel frame) := by
  refine Exec.within_of_wp fun s => ?_
  rw [receive, Exec.wp_bind, Exec.wp_state]
  cases hpeer : s.findPeer a with
  | none => exact rfl
  | some peer =>
    have hdevice := deviceId_of_findPeer hpeer
    have herror : ∀ e : Error, Within (Same (but (H := H) a))
        (updatePeer a fun peer => { peer with lastError := some e.what }) :=
      fun _ => but_updatePeer_self fun _ => rfl
    refine Exec.wp_of (Exec.within_orElse ?_ herror s)
    refine Exec.within_ite (fun _ => Exec.within_raise _) fun _ => ?_
    cases frame with
    | malformed error => exact Exec.within_raise _
    | hello hello =>
      refine Exec.within_bind Exec.within_state fun s => ?_
      refine Exec.within_ite (fun _ => Exec.within_raise _) fun _ => ?_
      rw [hdevice]
      exact Exec.within_bind (but_updatePeer_self fun _ => rfl) fun _ =>
        Exec.within_bind (but_sendHello_self hdevice) fun _ => but_sendManifest_self
    | _ =>
      refine Exec.within_bind Exec.within_state fun s => ?_
      refine Exec.within_ite (fun _ => Exec.within_raise _) fun _ => ?_
      rw [hdevice]
      exact but_receiveData_self _

/-! ## When a round for a target does not throw -/

omit [ContentHash H] in
theorem ok_send (frame : OneWay.Frame H) (hquiet : ∀ k, s.env.refuses a k = false) :
    (send a frame s).1 = .ok () := by
  rw [send, Exec.bind_apply_ok (Exec.state_apply s), hquiet]
  rfl

omit [ContentHash H] in
theorem ok_sendHello {peer : PeerConfig} (hquiet : ∀ k, s.env.refuses peer.deviceId k = false) :
    (sendHello peer s).1 = .ok () :=
  ok_send _ hquiet

/-- The transport of a target takes every frame, and the manifest fits into one, if the target is to
have it. -/
def TakesManifest (a : DeviceId) (s : Source H) : Prop :=
  ∀ peer, s.findPeer a = some peer → peer.receivedHello ∧ peer.available →
    (∀ k, s.env.refuses a k = false) ∧ s.sourceManifest.encode = .ok ()

omit [ContentHash H] in
theorem ok_announce (h : s.TakesManifest a) : (announce a s).1 = .ok () := by
  rw [announce, Exec.bind_apply_ok (Exec.state_apply s)]
  cases hpeer : s.findPeer a with
  | none => rfl
  | some peer =>
    simp only [Exec.when]
    split
    · rename_i hready
      obtain ⟨hquiet, hencode⟩ := h peer hpeer hready
      rw [sendManifest, Exec.bind_apply_ok (Exec.state_apply s),
        Exec.bind_apply_ok (Exec.check_apply_ok (f := fun s : Source H => s.sourceManifest.encode)
          hencode)]
      exact ok_send _ hquiet
    · rfl

/-- Each upload of a peer can be served.  The uploads are told apart by the number of uploads after
them. -/
def AllServe (folder : Folder) (buffered : Nat → Nat) : List (PendingUpload H) → Prop
  | [] => True
  | upload :: rest =>
    upload.session.Serves folder (buffered rest.length) ∧ AllServe folder buffered rest

/-- The uploads of a target can be served, and its transport takes every frame, if it is
available. -/
def TakesChunks (a : DeviceId) (s : Source H) : Prop :=
  ∀ peer, s.findPeer a = some peer → peer.available →
    (∀ k, s.env.refuses a k = false) ∧ AllServe s.folder (s.env.buffered a) peer.uploads

theorem wp_pumpUploads {uploads : List (PendingUpload H)} (done : List (PendingUpload H))
    (hquiet : ∀ k, s.env.refuses a k = false)
    (hserve : AllServe s.folder (s.env.buffered a) uploads) :
    Exec.Wp (pumpUploads a done uploads) (fun _ _ => True) (fun _ _ => False) s := by
  induction uploads generalizing done s with
  | nil => trivial
  | cons upload rest ih =>
    obtain ⟨hfirst, hrest⟩ := hserve
    obtain ⟨next, hnext⟩ := hfirst.ok
    rw [pumpUploads, Exec.wp_bind, Exec.wp_state, Exec.wp_bind, updatePeer, Exec.wp_update, hnext]
    have hchunk : ∀ s : Source H, (∀ k, s.env.refuses a k = false) → Exec.Wp (sendChunk a next)
        (fun _ s' => s'.env = s.env ∧ s'.folder = s.folder) (fun _ _ => False) s := by
      intro s hquiet
      cases next with
      | none => exact ⟨rfl, rfl⟩
      | some chunk =>
        rw [sendChunk, send, Exec.wp_bind, Exec.wp_state, hquiet]
        exact ⟨rfl, rfl⟩
    rw [Exec.wp_bind]
    refine Exec.wp_mono (hchunk _ hquiet) (fun _ s' hs' => ?_) fun _ _ h => h
    obtain ⟨henv, hfolder⟩ := hs'
    have hquiet' : ∀ k, s'.env.refuses a k = false := by rw [henv]; exact hquiet
    have hrest' : AllServe s'.folder (s'.env.buffered a) rest := by
      rw [henv, hfolder]
      exact hrest
    refine Exec.wp_ite (fun _ => ih _ hquiet' hrest') fun _ => ?_
    rw [Exec.wp_bind, updatePeer, Exec.wp_update]
    exact ih _ hquiet' hrest'

theorem ok_pumpPeer (h : s.TakesChunks a) : (pumpPeer a s).1 = .ok () := by
  rw [pumpPeer, Exec.bind_apply_ok (Exec.state_apply s)]
  cases hpeer : s.findPeer a with
  | none => rfl
  | some peer =>
    simp only [Exec.when]
    split
    · rename_i havailable
      obtain ⟨hquiet, hserve⟩ := h peer hpeer havailable
      obtain ⟨⟨⟩, hok⟩ := Exec.ok_of_wp (wp_pumpUploads [] hquiet hserve)
      exact hok
    · rfl

/-- What a round for a target reads. -/
def own (a : DeviceId) (s : Source H) :
    Environment × Folder × Manifest H × Option (Peer H) :=
  (s.env, s.folder, s.sourceManifest, s.findPeer a)

omit [ContentHash H] in
theorem own_send (frame : OneWay.Frame H) : Within (Same (own a)) (send d frame) :=
  Exec.within_bind Exec.within_state fun _ => Exec.within_ite (fun _ => Exec.within_raise _)
    fun _ => Exec.within_update fun _ => rfl

omit [ContentHash H] in
theorem own_updatePeer (h : d ≠ a) {f : Peer H → Peer H}
    (hf : ∀ peer, (f peer).config = peer.config) : Within (Same (own a)) (updatePeer d f) := by
  refine Exec.within_update fun s => ?_
  have hfind : ∀ peers : List (Peer H),
      (peers.map fun peer => if peer.config.deviceId = d then f peer else peer).find?
        (fun peer => peer.config.deviceId = a) =
      peers.find? fun peer => peer.config.deviceId = a := by
    intro peers
    induction peers with
    | nil => rfl
    | cons peer rest ih =>
      rw [List.map_cons, List.find?_cons, List.find?_cons, ih]
      by_cases hdevice : peer.config.deviceId = d
      · have hne : ¬ peer.config.deviceId = a := hdevice ▸ h
        rw [if_pos hdevice, hf, decide_eq_false hne]
      · rw [if_neg hdevice]
  simp only [Same, own, findPeer]
  rw [hfind]

omit [ContentHash H] in
theorem own_announce : Within (Same (own (H := H) a)) (announce d) := by
  refine Exec.within_bind Exec.within_state fun s => ?_
  split
  · exact Exec.within_pure _
  · exact Exec.within_when fun _ => Exec.within_bind Exec.within_state fun _ =>
      Exec.within_bind (Exec.within_check _) fun _ => own_send _

theorem own_pumpPeer (h : d ≠ a) : Within (Same (own (H := H) a)) (pumpPeer d) := by
  have huploads : ∀ uploads done : List (PendingUpload H),
      Within (Same (own a)) (pumpUploads d done uploads) := by
    intro uploads
    induction uploads with
    | nil => exact fun _ => Exec.within_pure _
    | cons upload rest ih =>
      intro done
      refine Exec.within_bind Exec.within_state fun s => ?_
      refine Exec.within_bind (own_updatePeer h fun _ => rfl) fun _ => ?_
      split
      · exact Exec.within_raise _
      · rename_i next _
        have hchunk : Within (Same (own a)) (sendChunk d next) := by
          cases next with
          | none => exact Exec.within_pure _
          | some chunk => exact own_send _
        refine Exec.within_bind hchunk fun _ => Exec.within_ite (fun _ => ih _) fun _ => ?_
        exact Exec.within_bind (own_updatePeer h fun _ => rfl) fun _ => ih _
  refine Exec.within_bind Exec.within_state fun s => ?_
  split
  · exact Exec.within_pure _
  · exact Exec.within_when fun _ => huploads _ _

omit [ContentHash H] in
theorem TakesManifest.of_own (h : t.own a = s.own a) (hs : s.TakesManifest a) :
    t.TakesManifest a := by
  simp only [own, Prod.mk.injEq] at h
  obtain ⟨henv, -, hmanifest, hpeer⟩ := h
  rw [TakesManifest, henv, hmanifest, hpeer]
  exact hs

omit [ContentHash H] in
theorem TakesChunks.of_own (h : t.own a = s.own a) (hs : s.TakesChunks a) : t.TakesChunks a := by
  simp only [own, Prod.mk.injEq] at h
  obtain ⟨henv, hfolder, -, hpeer⟩ := h
  rw [TakesChunks, henv, hfolder, hpeer]
  exact hs

/-! ## Operations for all targets -/

omit [ContentHash H] in
theorem devices_eq (hst : s.but a = t.but a) : s.devices = t.devices := by
  rw [← devices_but (a := a), hst, devices_but]

/-- A loop over devices that are all different has one round for each. -/
theorem once_of_nodup {devices : List DeviceId} (h : devices.Nodup) :
    devices.Pairwise fun b c => ¬ (b = a ∧ c = a) :=
  h.imp fun hne hboth => hne (hboth.1.trans hboth.2.symm)

/-- **`Pump`** for the other targets.  By induction over the list of peers; the round of the hidden
target changes nothing that the others see, and does not throw. -/
theorem coupled_pump (hnodup : s.devices.Nodup) (hs : s.TakesChunks a) (ht : t.TakesChunks a)
    (hst : s.but a = t.but a) : Coupled (but a) pump pump s t := by
  refine Exec.coupled_state ?_
  rw [← devices_eq hst]
  refine Exec.coupled_forM (· = a) (TakesChunks a) (once_of_nodup hnodup)
    (fun d _ hd s t => coupled_pumpPeer hd) (fun d _ hd s hs => ?_) ?_ ?_ hs ht hst
  · exact hs.of_own (own_pumpPeer hd s)
  · rintro d - rfl
    exact but_pumpPeer_self
  · rintro d - rfl s hs
    exact ok_pumpPeer hs

/-- The manifest of the folder fits into a frame, and the transport of a target takes it, if the
target is to have it. -/
def MayScan (a : DeviceId) (s : Source H) : Prop :=
  ∀ peer, s.findPeer a = some peer → peer.receivedHello ∧ peer.available →
    (∀ k, s.env.refuses a k = false) ∧
      ∀ snapshot, OneWay.scanSource s.folder s.env.mtime = .ok snapshot →
        (⟨s.manifestRevision + 1, OneWay.announcedEntries snapshot⟩ : Manifest H).encode = .ok ()

theorem takesManifest_scan (hs : s.MayScan a) (hok : (scan s).1 = .ok ()) :
    (scan s).2.TakesManifest a := by
  refine Exec.of_wp_ok (Q := fun _ s' => s'.TakesManifest a) (E := fun _ _ => True) ?_ hok
  rw [scan, Exec.wp_bind]
  refine Exec.wp_check (fun _ _ => trivial) fun snapshot hsnapshot => ?_
  rw [Exec.wp_bind]
  refine Exec.wp_atomic (fun _ _ => trivial) fun r s' hreconcile => ?_
  obtain ⟨r', -, h⟩ := ok_of_map hreconcile
  cases h
  rw [Exec.wp_bind, Exec.wp_update]
  refine Exec.wp_ite (fun _ => trivial) fun _ => ?_
  rw [Exec.wp_update]
  intro peer hpeer hready
  obtain ⟨hquiet, hfits⟩ := hs peer hpeer hready
  exact ⟨hquiet, hfits snapshot hsnapshot⟩

theorem unchanged_scan : Within (Same fun s : Source H => (s.env, s.peers)) scan := by
  refine Exec.within_bind (Exec.within_check _) fun snapshot => ?_
  refine Exec.within_bind (Exec.within_atomic fun s r s' h => ?_) fun _ => ?_
  · obtain ⟨r', -, h⟩ := ok_of_map h
    cases h
    rfl
  · exact Exec.within_bind (Exec.within_update fun _ => rfl) fun _ =>
      Exec.within_ite (fun _ => Exec.within_raise _) fun _ => Exec.within_update fun _ => rfl

/-- **`RefreshSource`** for the other targets.  The scan is the same in both runs, and the loop
after it is the one over the peers. -/
theorem coupled_refreshSource (hnodup : s.devices.Nodup) (hs : s.MayScan a) (ht : t.MayScan a)
    (hst : s.but a = t.but a) : Coupled (but a) refreshSource refreshSource s t := by
  have hscan := coupled_scan hst
  refine Exec.coupled_bind_at hscan fun _ hok => Exec.coupled_state ?_
  have hs' := takesManifest_scan hs hok
  have ht' := takesManifest_scan ht (hscan.1.symm.trans hok)
  rw [← devices_eq hscan.2]
  refine Exec.coupled_forM (· = a) (TakesManifest a) ?_
    (fun d _ hd s t => coupled_announce hd) (fun d _ _ s hs => ?_) ?_ ?_ hs' ht' hscan.2
  · have hpeers : (scan s).2.peers = s.peers := congrArg Prod.snd (unchanged_scan s)
    rw [devices, hpeers]
    exact once_of_nodup hnodup
  · exact hs.of_own (own_announce s)
  · rintro d - rfl
    exact but_announce_self
  · rintro d - rfl s hs
    exact ok_announce hs

theorem env_refreshSource : Within (Same (Source.env (H := H))) refreshSource :=
  Exec.within_bind (fun s => congrArg Prod.fst (unchanged_scan s)) fun _ =>
    Exec.within_bind Exec.within_state fun _ => Exec.within_forM fun d _ s =>
      congrArg Prod.fst (own_announce (a := d) s)

/-- A target can be told HELLO and be sent the manifest of the folder. -/
def MayStart (a : DeviceId) (s : Source H) : Prop :=
  s.started = false → (a ∈ s.devices → ∀ k, s.env.refuses a k = false) ∧ s.MayScan a

/-- **`Start`** for the other targets. -/
theorem coupled_start (hnodup : s.devices.Nodup) (hs : s.MayStart a) (ht : t.MayStart a)
    (hst : s.but a = t.but a) : Coupled (but a) start start s t := by
  have hstarted : s.started = t.started := (congrArg Source.started hst :)
  have hconfigs : s.peers.map Peer.config = t.peers.map Peer.config := by
    rw [← configs_but (a := a), hst, configs_but]
  refine Exec.coupled_state (Exec.coupled_ite ?_ (fun _ => Exec.coupled_pure _ hst) fun hnot => ?_)
  · rw [hstarted]
  have hs := hs (Bool.eq_false_iff.mpr hnot)
  have ht := ht (hstarted ▸ Bool.eq_false_iff.mpr hnot)
  refine Exec.coupled_ite ?_ (fun _ => Exec.coupled_raise _ hst) fun _ => ?_
  · rw [← List.map_eq_nil_iff (f := Peer.config), hconfigs, List.map_eq_nil_iff]
  refine Exec.coupled_bind_at (Exec.coupled_update ?_) fun _ _ => ?_
  · exact congrArg (fun x : Source H => { x with started := true }) hst
  have hst' : ({ s with started := true } : Source H).but a =
      ({ t with started := true } : Source H).but a :=
    congrArg (fun x : Source H => { x with started := true }) hst
  have hrefresh := coupled_refreshSource (s := { s with started := true }) hnodup hs.2
    (t := { t with started := true }) ht.2 hst'
  refine Exec.coupled_bind_at hrefresh fun _ _ => ?_
  rw [← hconfigs]
  refine Exec.coupled_forM (fun peer : PeerConfig => peer.deviceId = a)
    (fun s' => a ∈ s.devices → ∀ k, s'.env.refuses a k = false) ?_
    (fun peer _ hpeer s t => coupled_sendHello hpeer) (fun peer _ _ s' hs' hmem => ?_) ?_ ?_ ?_ ?_
    hrefresh.2
  · rw [List.pairwise_map]
    exact List.pairwise_map.mp (once_of_nodup hnodup)
  · have henv : (sendHello peer s').2.env = s'.env := congrArg Prod.fst (own_send (a := a) _ s')
    rw [henv]
    exact hs' hmem
  · rintro peer - hpeer
    exact but_sendHello_self hpeer
  · rintro peer hpeer rfl s' hs'
    refine ok_sendHello (hs' ?_)
    obtain ⟨p, hp, rfl⟩ := List.mem_map.mp hpeer
    exact List.mem_map_of_mem hp
  · rw [env_refreshSource]
    exact hs.1
  · rw [env_refreshSource, devices_eq hst]
    exact ht.1

omit [ContentHash H] in
theorem isSome_findPeer : (s.findPeer d).isSome ↔ d ∈ s.devices := by
  rw [findPeer, List.find?_isSome, devices, List.mem_map]
  simp only [decide_eq_true_eq]

omit [ContentHash H] in
/-- A new peer has not been heard from. -/
theorem mayScan_first {config : PeerConfig} [ContentHash H] (h : s.peers = []) :
    ({ s with peers := s.peers ++ [⟨config, false, true, [], none⟩] } : Source H).MayScan a := by
  intro peer hpeer hready
  have hmem := List.mem_of_find?_eq_some hpeer
  rw [h, List.nil_append, List.mem_singleton] at hmem
  rw [hmem] at hready
  cases hready.1

/-- **`AddTarget`** for the other targets, also when it is the one that is left out. -/
theorem view_addTarget (config : PeerConfig) (hst : s.but a = t.but a) :
    (addTarget config s).2.but a = (addTarget config t).2.but a := by
  have hstarted : s.started = t.started := (congrArg Source.started hst :)
  have hpeers : s.peers = [] ↔ t.peers = [] := by
    rw [← List.map_eq_nil_iff (f := Peer.config), ← List.map_eq_nil_iff (f := Peer.config),
      ← configs_but (a := a), hst, configs_but]
  have hfound : (s.findPeer config.deviceId).isSome ↔ (t.findPeer config.deviceId).isSome := by
    rw [isSome_findPeer, isSome_findPeer, devices_eq hst]
  rw [addTarget, Exec.bind_apply_ok (Exec.state_apply s), Exec.bind_apply_ok (Exec.state_apply t)]
  by_cases hbad : config.deviceId = [] ∨ config.deviceFingerprint = [] ∨
      config.authorizationDigest = [] ∨ (s.findPeer config.deviceId).isSome
  · rw [if_pos hbad, if_pos (by rw [← hfound]; exact hbad)]
    exact hst
  rw [if_neg hbad, if_neg (by rw [← hfound]; exact hbad)]
  set new : Peer H := ⟨config, false, true, [], none⟩
  have hadd : ∀ s : Source H, ({ s with peers := s.peers ++ [new] } : Source H).but a =
      { s.but a with peers := (s.but a).peers ++ [new.but a] } := by
    intro s
    simp [but, List.map_append]
  have hst₁ : ({ s with peers := s.peers ++ [new] } : Source H).but a =
      ({ t with peers := t.peers ++ [new] } : Source H).but a := by
    rw [hadd, hadd, hst]
  rw [Exec.bind_apply_ok (Exec.update_apply _ s), Exec.bind_apply_ok (Exec.update_apply _ t)]
  by_cases hstart : s.started
  · have hstart' : t.started = true := hstarted ▸ hstart
    rw [Exec.when_pos hstart, Exec.when_pos hstart']
    refine Exec.view_bind (Exec.coupled_when hpeers (fun hnil => ?_) hst₁) fun _ s' t' hst' => ?_
    · refine coupled_refreshSource ?_ (mayScan_first hnil) (mayScan_first (hpeers.mp hnil)) hst₁
      rw [devices, hnil]
      exact List.nodup_singleton _
    · by_cases hdevice : config.deviceId = a
      · exact ((but_sendHello_self hdevice s').trans hst').trans
          (but_sendHello_self hdevice t').symm
      · exact (coupled_sendHello hdevice hst').2
  · have hstart' : ¬ t.started = true := hstarted ▸ hstart
    rw [Exec.when_neg hstart, Exec.when_neg hstart']
    exact hst₁

omit [ContentHash H] in
theorem view_removeTarget (device : DeviceId) (hst : s.but a = t.but a) :
    (removeTarget device s).2.but a = (removeTarget device t).2.but a := by
  let p : Peer H → Bool := fun peer => peer.config.deviceId = device
  have herase : ∀ s : Source H, ({ s with peers := s.peers.eraseP p } : Source H).but a =
      { s.but a with peers := (s.but a).peers.eraseP p } := by
    intro s
    have hp : p ∘ Peer.but a = p := by
      funext peer
      simp [p]
    simp only [but, List.eraseP_map, hp]
  exact (herase s).trans ((congrArg (fun x : Source H => { x with peers := x.peers.eraseP p })
    hst).trans (herase t).symm)

/-! ## Every peer has a device of its own -/

omit [ContentHash H] in
/-- What a round for one target leaves alone includes the list of devices. -/
theorem devices_of_but {α : Type} {m : SourceM H α} (h : Within (Same (but a)) m) :
    Within (Same devices) m := by
  intro s
  have hbut : (m s).2.but a = s.but a := h s
  exact devices_eq hbut

theorem devices_refreshSource : Within (Same (devices (H := H))) refreshSource := by
  refine Exec.within_bind (fun s => ?_) fun _ => Exec.within_bind Exec.within_state fun _ =>
    Exec.within_forM fun d _ => devices_of_but but_announce_self
  have hpeers : (scan s).2.peers = s.peers := congrArg Prod.snd (unchanged_scan s)
  rw [Same, devices, hpeers]
  rfl

theorem nodup_step (s : Source H) (action : Action H) (hs : s.devices.Nodup) :
    (s.step action).devices.Nodup := by
  have hkeep : ∀ (env : Environment) {m : SourceM H Unit}, Within (Same devices) m →
      (s.call env m).devices.Nodup := by
    intro env m hm
    have hdevices : (m { s with env }).2.devices = s.devices := hm { s with env }
    rw [call, hdevices]
    exact hs
  cases action with
  | addTarget env config =>
    refine Exec.of_wp (I := fun s : Source H => s.devices.Nodup) ?_
    rw [addTarget, Exec.wp_bind, Exec.wp_state]
    refine Exec.wp_ite (fun _ => hs) fun hnew => ?_
    rw [Exec.wp_bind, Exec.wp_update]
    have hfresh : config.deviceId ∉ s.devices := fun hmem =>
      hnew (.inr (.inr (.inr (isSome_findPeer.mpr hmem))))
    have hadded : (s.devices ++ [config.deviceId]).Nodup :=
      List.nodup_append.mpr ⟨hs, List.nodup_singleton _, fun d hd d' hd' heq =>
        hfresh (List.mem_singleton.mp hd' ▸ heq ▸ hd)⟩
    have hrest : Within (Same devices) (Exec.when s.started
        (do Exec.when (s.peers = []) refreshSource; sendHello (H := H) config)) :=
      Exec.within_when fun _ => Exec.within_bind (Exec.within_when fun _ => devices_refreshSource)
        fun _ => devices_of_but (but_sendHello_self rfl)
    refine Exec.wp_of ?_
    rw [hrest, devices, List.map_append]
    exact hadded
  | removeTarget device => exact hs.sublist (List.eraseP_sublist.map _)
  | start env =>
    refine hkeep env ?_
    refine Exec.within_bind Exec.within_state fun _ => Exec.within_ite (fun _ => Exec.within_pure _)
      fun _ => Exec.within_ite (fun _ => Exec.within_raise _) fun _ => ?_
    exact Exec.within_bind (Exec.within_update fun _ => rfl) fun _ =>
      Exec.within_bind devices_refreshSource fun _ =>
        Exec.within_forM fun peer _ => devices_of_but (but_sendHello_self rfl)
  | refreshSource env => exact hkeep env devices_refreshSource
  | pump env =>
    exact hkeep env (Exec.within_bind Exec.within_state fun _ => Exec.within_forM fun d _ =>
      devices_of_but but_pumpPeer_self)
  | setTargetAvailable env device available =>
    exact hkeep env (devices_of_but (but_setTargetAvailable_self available))
  | receive env device channel frame =>
    exact hkeep env (devices_of_but (but_receive_self channel frame))
  | edit folder => exact hs

end View

/-! ## Runs

The two runs of the theorem may contain different frames of the target, any number of them, at any
points.  What they have in common is what is left when these are crossed out. -/

/-- The action is a frame from a target, or a change of its availability. -/
def isOf (a : DeviceId) : Action H → Bool
  | .receive _ device _ _ => device = a
  | .setTargetAvailable _ device _ => device = a
  | _ => false

/-- The action without what its environment says about a target. -/
def actionBut (a : DeviceId) : Action H → Action H
  | .addTarget env config => .addTarget (env.but a) config
  | .removeTarget device => .removeTarget device
  | .start env => .start (env.but a)
  | .refreshSource env => .refreshSource (env.but a)
  | .pump env => .pump (env.but a)
  | .setTargetAvailable env device available => .setTargetAvailable (env.but a) device available
  | .receive env device channel frame => .receive (env.but a) device channel frame
  | .edit folder => .edit folder

variable [ContentHash H]

/-- No round for a target throws. -/
def Undisturbed (a : DeviceId) (s : Source H) : Action H → Prop
  | .start env => ({ s with env } : Source H).MayStart a
  | .refreshSource env => ({ s with env } : Source H).MayScan a
  | .pump env => ({ s with env } : Source H).TakesChunks a
  | _ => True

/-- What the other targets may depend on, whatever the environment of the next call. -/
def view (a : DeviceId) (s : Source H) : Environment → Source H := fun env =>
  ({ s with env } : Source H).but a

omit [ContentHash H] in
theorem view_eq {a : DeviceId} {s t : Source H} (h : s.but a = t.but a) : s.view a = t.view a :=
  funext fun env => (congrArg (fun x : Source H => { x with env := env.but a }) h :)

omit [ContentHash H] in
/-- Two calls in environments that differ only for the target. -/
theorem but_eq_of_view {a : DeviceId} {s t : Source H} (h : s.view a = t.view a)
    {env env' : Environment} (henv : env.but a = env'.but a) :
    ({ s with env } : Source H).but a = ({ t with env := env' } : Source H).but a := by
  have hview : ({ s with env } : Source H).but a = ({ t with env } : Source H).but a :=
    congrFun h env
  rw [hview, but, but, henv]

/-- **An action of the target** leaves the view alone.  What it requests, cancels or says is
recorded in its own place. -/
theorem view_step_hidden (a : DeviceId) (s : Source H) (action : Action H)
    (h : isOf a action = true) : (s.step action).view a = s.view a := by
  cases action with
  | receive env device channel frame =>
    obtain rfl : device = a := of_decide_eq_true h
    exact view_eq (t := { s with env }) (but_receive_self channel frame { s with env })
  | setTargetAvailable env device available =>
    obtain rfl : device = a := of_decide_eq_true h
    exact view_eq (t := { s with env }) (but_setTargetAvailable_self available { s with env })
  | _ => cases h

/-- **Any other action** takes views to views.  With the step before, this is the simulation: runs
that differ in the hidden target only go side by side. -/
theorem view_step_visible (a : DeviceId) (s t : Source H) (x y : Action H)
    (hs : s.devices.Nodup) (hx : s.Undisturbed a x) (hy : t.Undisturbed a y)
    (hvisible : isOf a x = false) (hlook : actionBut a x = actionBut a y)
    (hst : s.view a = t.view a) : (s.step x).view a = (t.step y).view a := by
  -- the two actions look alike: they are of one kind and differ in what concerns the target only
  cases x with
  | addTarget env config =>
    cases y with
    | addTarget env' config' =>
      obtain ⟨henv, rfl⟩ := Action.addTarget.inj hlook
      exact view_eq (view_addTarget config (but_eq_of_view hst henv))
    | _ => cases hlook
  | removeTarget device =>
    cases y with
    | removeTarget device' =>
      obtain rfl := Action.removeTarget.inj hlook
      exact funext fun env => (view_removeTarget device (congrFun hst env) :)
    | _ => cases hlook
  | start env =>
    cases y with
    | start env' =>
      have hst' := but_eq_of_view hst (Action.start.inj hlook)
      exact view_eq (coupled_start (s := { s with env }) hs hx hy hst').2
    | _ => cases hlook
  | refreshSource env =>
    cases y with
    | refreshSource env' =>
      have hst' := but_eq_of_view hst (Action.refreshSource.inj hlook)
      exact view_eq (coupled_refreshSource (s := { s with env }) hs hx hy hst').2
    | _ => cases hlook
  | pump env =>
    cases y with
    | pump env' =>
      have hst' := but_eq_of_view hst (Action.pump.inj hlook)
      exact view_eq (coupled_pump (s := { s with env }) hs hx hy hst').2
    | _ => cases hlook
  | setTargetAvailable env device available =>
    cases y with
    | setTargetAvailable env' device' available' =>
      obtain ⟨henv, rfl, rfl⟩ := Action.setTargetAvailable.inj hlook
      exact view_eq (coupled_setTargetAvailable (of_decide_eq_false hvisible) available
        (but_eq_of_view hst henv)).2
    | _ => cases hlook
  | receive env device channel frame =>
    cases y with
    | receive env' device' channel' frame' =>
      obtain ⟨henv, rfl, rfl, rfl⟩ := Action.receive.inj hlook
      exact view_eq (coupled_receive (of_decide_eq_false hvisible) channel frame
        (but_eq_of_view hst henv)).2
    | _ => cases hlook
  | edit folder =>
    cases y with
    | edit folder' =>
      obtain rfl := Action.edit.inj hlook
      exact funext fun env => (congrArg (fun x : Source H => { x with folder })
        (congrFun hst env) :)
    | _ => cases hlook

end Source

end MultiTarget

/-- **Targets are isolated.**  Two runs of a source that differ only in the frames received from a
target, in its availability and in what its transport reports send the same frames to every other
target, if no round for that target throws in either run. -/
theorem targets_isolated {H : Type} [ContentHash H] (config : MultiTarget.Config)
    (env : MultiTarget.Environment) (uuid : Nat → Bytes) (initialRevision : UInt64)
    (db : Database H) (folder : Folder) (a : DeviceId) (xs ys : List (MultiTarget.Source.Action H))
    (hsame : Run.project (MultiTarget.Source.isOf a) (MultiTarget.Source.actionBut a) xs =
      Run.project (MultiTarget.Source.isOf a) (MultiTarget.Source.actionBut a) ys)
    (hxs : Run.Along MultiTarget.Source.step (MultiTarget.Source.Undisturbed a)
      (.create config env uuid initialRevision db folder) xs)
    (hys : Run.Along MultiTarget.Source.step (MultiTarget.Source.Undisturbed a)
      (.create config env uuid initialRevision db folder) ys)
    (b : DeviceId) (hb : b ≠ a) :
    (Run.run MultiTarget.Source.step (.create config env uuid initialRevision db folder) xs).sentTo
      b =
      (Run.run MultiTarget.Source.step (.create config env uuid initialRevision db folder)
        ys).sentTo b := by
  have hnodup : (MultiTarget.Source.create config env uuid initialRevision db
    folder).devices.Nodup := List.nodup_nil
  have hview := Run.view_eq_of_project (I := fun s : MultiTarget.Source H => s.devices.Nodup)
    MultiTarget.Source.nodup_step (fun s x _ => MultiTarget.Source.view_step_hidden a s x)
    (fun s t x y hs _ hx hy hvisible _ => MultiTarget.Source.view_step_visible a s t x y hs hx hy
      hvisible) xs ys _ _ hnodup hnodup hxs hys hsame rfl
  have hsent := congrArg (fun s => MultiTarget.Source.sentTo s b) (congrFun hview env)
  exact (MultiTarget.Source.sentTo_but hb).symm.trans
    (hsent.trans (MultiTarget.Source.sentTo_but hb))

/-! ## Two runs -/

/-- Two targets are added. -/
def addTwo : List (MultiTarget.Source.Action Bytes) :=
  [.addTarget .sample (.sample (ascii "a")), .addTarget .sample (.sample (ascii "b"))]

/-- The source is started, both targets say HELLO, and the second asks for the file. -/
def meetTwo : List (MultiTarget.Source.Action Bytes) :=
  [.start .sample, .receive .sample (ascii "a") .control (.hello (helloFrom (ascii "a"))),
    .receive .sample (ascii "b") .control (.hello (helloFrom (ascii "b"))),
    .receive .sample (ascii "b") .control (.fileRequest ⟨2, [7], [⟨0, 1⟩]⟩)]

/-- The source with its two targets. -/
def twoTargets : MultiTarget.Source Bytes := Run.run MultiTarget.Source.step .sample addTwo

/-- The first target asks for a chunk of the file. -/
def askChunk (index : Nat) : List (MultiTarget.Source.Action Bytes) :=
  [.receive .sample (ascii "a") .control (.fileRequest ⟨1, [7], [⟨index, 1⟩]⟩)]

/-- Nothing disturbs a run of the sample source in which the uploads of the first target are these
when it comes to `Pump`. -/
theorem undisturbed_sample (frames : List (MultiTarget.Source.Action Bytes))
    (uploads : List (PendingUpload Bytes))
    (hframes : ∀ s, Run.Along MultiTarget.Source.step
      (MultiTarget.Source.Undisturbed (ascii "a")) s frames)
    (hpeer : (Run.run MultiTarget.Source.step twoTargets (meetTwo ++ frames)).findPeer (ascii "a") =
      some ⟨.sample (ascii "a"), true, true, uploads, none⟩)
    (hserve : MultiTarget.Source.AllServe
      (Run.run MultiTarget.Source.step twoTargets (meetTwo ++ frames)).folder (fun _ => 0) uploads)
        :
    Run.Along MultiTarget.Source.step (MultiTarget.Source.Undisturbed (ascii "a")) .sample
      (addTwo ++ ((meetTwo ++ frames) ++ [.pump .sample])) := by
  have hheard : twoTargets.findPeer (ascii "a") =
      some ⟨.sample (ascii "a"), false, true, [], none⟩ := by decide +kernel
  rw [Run.along_append, Run.along_append, Run.along_append]
  refine ⟨⟨trivial, trivial, trivial⟩, ⟨⟨?_, trivial, trivial, trivial, trivial⟩, hframes _⟩, ?_,
    trivial⟩
  · intro _
    refine ⟨fun _ _ => rfl, fun peer hfind hready => ?_⟩
    cases hheard.symm.trans hfind
    cases hready.1
  · intro peer hfind _
    cases hpeer.symm.trans hfind
    exact ⟨fun _ => rfl, hserve⟩

/-- A run in which the first target asks for nothing. -/
def silentRun : List (MultiTarget.Source.Action Bytes) :=
  addTwo ++ ((meetTwo ++ []) ++ [.pump .sample])

/-- The same run, except that the first target asks for a chunk. -/
def askingRun (index : Nat) : List (MultiTarget.Source.Action Bytes) :=
  addTwo ++ ((meetTwo ++ askChunk index) ++ [.pump .sample])

/-- What can be seen of the two runs without the first target. -/
theorem project_askingRun (index : Nat) :
    Run.project (MultiTarget.Source.isOf (ascii "a")) (MultiTarget.Source.actionBut (ascii "a"))
        (askingRun index) =
      Run.project (MultiTarget.Source.isOf (ascii "a")) (MultiTarget.Source.actionBut (ascii "a"))
        silentRun := rfl

/-- The second target is sent its chunk, whether the first one has asked for the file or not. -/
theorem targets_isolated_served :
    .chunk ⟨2, [7], 0, [7], [7]⟩ ∈
        (Run.run MultiTarget.Source.step .sample silentRun).sentTo (ascii "b") ∧
      (Run.run MultiTarget.Source.step .sample (askingRun 0)).sentTo (ascii "b") =
        (Run.run MultiTarget.Source.step .sample silentRun).sentTo (ascii "b") := by
  refine ⟨by decide +kernel, ?_⟩
  have hasks := undisturbed_sample (askChunk 0)
    [⟨1, ⟨⟨ascii "f", 1, [7], none⟩, [⟨0, 1⟩]⟩⟩] (fun _ => ⟨trivial, trivial⟩)
    (by decide +kernel) ⟨fun range hrange => .inr ⟨[7], by decide +kernel, ?_⟩, trivial⟩
  · have hsilent := undisturbed_sample [] [] (fun _ => trivial)
      (by decide +kernel) trivial
    rw [MultiTarget.Source.sample] at hasks hsilent ⊢
    exact targets_isolated .sample .sample _ 0 .empty byteFolder (ascii "a") (askingRun 0) silentRun
      (project_askingRun 0) hasks hsilent (ascii "b") (by decide)
  · cases hrange
    decide

/-- A target that asks for a chunk outside the file stops `Pump`, and the second target is sent
nothing. -/
theorem target_starves_another :
    Run.project (MultiTarget.Source.isOf (ascii "a")) (MultiTarget.Source.actionBut (ascii "a"))
        (askingRun 5) =
      Run.project (MultiTarget.Source.isOf (ascii "a")) (MultiTarget.Source.actionBut (ascii "a"))
        silentRun ∧
    (Run.run MultiTarget.Source.step .sample (askingRun 5)).sentTo (ascii "b") ≠
      (Run.run MultiTarget.Source.step .sample silentRun).sentTo (ascii "b") :=
  ⟨project_askingRun 5, by decide +kernel⟩

end VeritasSync
