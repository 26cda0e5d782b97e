import VeritasSync.Lib.Run
import VeritasSync.Sync.MultiTarget
import VeritasSync.Sync.OneWay

/-!
# Announcing only what has been scanned

A target takes a manifest as an instruction to delete whatever it does not list, so a source must
never send the empty manifest that its members start with.  Both kinds of source send their manifest
to a peer whose HELLO they accept, and they accept a HELLO from the moment the peer's callback is
installed: a HELLO that comes before the first completed scan is answered with the empty manifest.

`Ledger` is the part of a source that this is about, for both kinds alike.  `sources_announce_scans`
says that nothing else goes wrong: in a run that accepts no HELLO before the first completed scan,
every manifest sent is the manifest of a completed scan.

The two kinds of source are different classes with different members.  What they have in common for
this purpose is little: a manifest, whether a scan has been completed, and what has been sent.  The
ledger has these, each class is shown to move it in one of a few ways, and the argument about runs
is made for the ledger.
-/

set_option autoImplicit false

namespace VeritasSync

open Exec (Within Keeps Same Wp)
open OneWay (Manifest)

/-! ## The ledger of a source

The manifests that scans have made, the manifest that would be sent next, and those that were
sent. -/

/-- What a source has scanned and announced. -/
structure Ledger (H : Type) where
  /-- `manifest_revision_`. -/
  revision : UInt64
  /-- `source_manifest_`. -/
  manifest : Manifest H
  /-- Some peer has been heard from. -/
  heard : Prop
  /-- The manifests sent. -/
  sent : List (Manifest H)
  /-- The manifests of the completed scans. -/
  scans : List (Manifest H)

namespace Ledger

variable {H : Type} {l : Ledger H}

/-- Every manifest sent is one of a completed scan, and the next one will be.

The revision is a `uint64_t` that counts the scans since the process started, so it says that there
has been a scan only while it has not come round to 0; `numbered` is what it says until then. -/
structure Sound (l : Ledger H) : Prop where
  heard : l.heard → l.manifest ∈ l.scans
  scanned : 1 ≤ l.revision → l.manifest ∈ l.scans
  sent : ∀ m ∈ l.sent, m ∈ l.scans
  numbered : l.scans.length < 2 ^ 64 →
    l.revision.toNat ≤ l.scans.length ∧ ∀ m ∈ l.scans, 1 ≤ m.revision

theorem Sound.send (h : l.Sound) (hmem : l.manifest ∈ l.scans) :
    ({ l with sent := l.sent ++ [l.manifest] } : Ledger H).Sound where
  heard := h.heard
  scanned := h.scanned
  sent m hm := by
    rcases List.mem_append.mp hm with hm | hm
    · exact h.sent m hm
    · rw [List.mem_singleton.mp hm]
      exact hmem
  numbered := h.numbered

theorem Sound.scan (h : l.Sound) {m : Manifest H} (hm : m.revision = l.revision + 1) :
    ({ l with revision := l.revision + 1, manifest := m, scans := l.scans ++ [m] } : Ledger H).Sound
    where
  heard _ := List.mem_append_right _ List.mem_cons_self
  scanned _ := List.mem_append_right _ List.mem_cons_self
  sent m' hm' := List.mem_append_left _ (h.sent m' hm')
  numbered hcount := by
    simp only [List.length_append, List.length_singleton] at hcount
    obtain ⟨hle, hall⟩ := h.numbered (Nat.lt_of_succ_lt hcount)
    -- the count of the scans bounds the revision, so one more does not wrap
    have hnext : (l.revision + 1).toNat = l.revision.toNat + 1 := by
      rw [UInt64.toNat_add, UInt64.toNat_one]
      omega
    refine ⟨?_, fun m' hm' => ?_⟩
    · simp only [List.length_append, List.length_singleton]
      omega
    · rcases List.mem_append.mp hm' with hm' | hm'
      · exact hall m' hm'
      · rw [List.mem_singleton.mp hm', hm, UInt64.le_iff_toNat_le, hnext]
        exact Nat.le_add_left 1 _

/-- Whoever may have been heard, once there is a manifest. -/
theorem Sound.hear (h : l.Sound) {heard : Prop} (hheard : heard → l.manifest ∈ l.scans) :
    ({ l with heard } : Ledger H).Sound :=
  ⟨hheard, h.scanned, h.sent, h.numbered⟩

/-- What is sent is numbered, as long as the numbers last. -/
theorem Sound.announced (h : l.Sound) {m : Manifest H} (hm : m ∈ l.sent) :
    m ∈ l.scans ∧ (l.scans.length < 2 ^ 64 → 1 ≤ m.revision) :=
  ⟨h.sent m hm, fun hcount => (h.numbered hcount).2 m (h.sent m hm)⟩

end Ledger

/-- The manifest in a frame. -/
def manifestOf {H : Type} : OneWay.Frame H → Option (Manifest H)
  | .manifest manifest => some manifest
  | _ => none

/-! ## Several targets -/

namespace MultiTarget

namespace Source

variable {H : Type}

/-- The ledger of a source with several targets. -/
def ledger (s : Source H) : Ledger H where
  revision := s.manifestRevision
  manifest := s.sourceManifest
  heard := ∃ peer ∈ s.peers, peer.receivedHello
  sent := s.sent.filterMap fun entry => manifestOf entry.2
  scans := s.scans

/-- The source has announced only what it has scanned. -/
def Announced (s : Source H) : Prop := s.ledger.Sound

/-- Functions that neither scan nor send a manifest, nor accept a HELLO. -/
theorem keeps_of_same {α : Type} {m : SourceM H α} (h : Within (Same ledger) m) :
    Within (Keeps Announced) m := by
  intro s hs
  rw [Announced, h s]
  exact hs

theorem same_updatePeer {device : DeviceId} {f : Peer H → Peer H}
    (hf : ∀ peer, (f peer).receivedHello = peer.receivedHello) :
    Within (Same ledger) (updatePeer device f) := by
  intro s
  have hheard : (∃ peer ∈ s.peers.map (fun peer =>
      if peer.config.deviceId = device then f peer else peer), peer.receivedHello) ↔
        ∃ peer ∈ s.peers, peer.receivedHello := by
    simp only [List.mem_map, exists_exists_and_eq_and]
    refine exists_congr fun peer => and_congr_right fun _ => ?_
    split
    · rw [hf]
    · exact Iff.rfl
  simp only [Same, ledger, updatePeer, Exec.update_apply, eq_iff_iff.mpr hheard]

theorem same_send {device : DeviceId} {frame : OneWay.Frame H} (hframe : manifestOf frame = none) :
    Within (Same ledger) (send device frame) := by
  refine Exec.within_bind Exec.within_state fun s => Exec.within_ite (fun _ => ?_) fun _ => ?_
  · exact Exec.within_raise _
  · refine Exec.within_update fun s => ?_
    simp [Same, ledger, List.filterMap_append, hframe]

theorem same_sendHello (peer : PeerConfig) : Within (Same ledger) (sendHello (H := H) peer) :=
  Exec.within_bind Exec.within_state fun _ => same_send rfl

theorem keeps_sendManifest {s : Source H} (hs : s.Announced) (hmem : s.sourceManifest ∈ s.scans)
    (device : DeviceId) : (sendManifest device s).2.Announced := by
  refine Exec.of_wp ?_
  rw [sendManifest, Exec.wp_bind, Exec.wp_state, Exec.wp_bind]
  refine Exec.wp_check (fun _ _ => hs) fun _ _ => ?_
  rw [send, Exec.wp_bind, Exec.wp_state]
  refine Exec.wp_ite (fun _ => hs) fun _ => ?_
  rw [Exec.wp_update, Announced]
  have hsent := Ledger.Sound.send hs hmem
  simpa [ledger, List.filterMap_append, manifestOf] using hsent

theorem keeps_announce (device : DeviceId) : Within (Keeps (Announced (H := H)))
    (announce device) := by
  intro s hs
  refine Exec.of_wp ?_
  rw [announce, Exec.wp_bind, Exec.wp_state]
  cases hpeer : s.findPeer device with
  | none => exact hs
  | some peer =>
    refine Exec.wp_when (fun hready => ?_) fun _ => hs
    have hmem := Ledger.Sound.heard hs ⟨peer, List.mem_of_find?_eq_some hpeer, hready.1⟩
    exact Exec.wp_of (keeps_sendManifest hs hmem device)

variable [ContentHash H]

theorem keeps_scan : Within (Keeps (Announced (H := H))) scan := by
  refine Exec.keeps_of_wp fun s hs => ?_
  rw [scan, Exec.wp_bind]
  refine Exec.wp_check (fun _ _ => hs) fun snapshot hsnapshot => ?_
  rw [Exec.wp_bind]
  refine Exec.wp_atomic (fun _ _ => hs) fun r s' hreconcile => ?_
  obtain ⟨rules, -, hscan⟩ := ok_of_bind hsnapshot
  have hall : snapshot.all OneWay.isHashed = true :=
    List.all_eq_true.mpr (OneWay.isHashed_of_scan hscan)
  obtain ⟨db, rfl⟩ : ∃ db, s' = { s with db } := by
    obtain ⟨r, -, h⟩ := ok_of_map hreconcile
    cases h
    exact ⟨_, rfl⟩
  rw [Exec.wp_bind, Exec.wp_update]
  refine Exec.wp_ite (fun hnot => ?_) fun _ => ?_
  · rw [hall] at hnot
    cases hnot
  · rw [Exec.wp_update, Announced]
    exact Ledger.Sound.scan hs rfl

theorem keeps_refreshSource : Within (Keeps (Announced (H := H))) refreshSource :=
  Exec.within_bind keeps_scan fun _ =>
    Exec.within_bind Exec.within_state fun _ => Exec.within_forM
      fun device _ => keeps_announce device

theorem keeps_addTarget (config : PeerConfig) :
    Within (Keeps (Announced (H := H))) (addTarget config) := by
  refine Exec.within_bind Exec.within_state fun s => Exec.within_ite (fun _ => ?_) fun _ => ?_
  · exact Exec.within_raise _
  · refine Exec.within_bind (keeps_of_same (Exec.within_update fun s => ?_)) fun _ =>
      Exec.within_when fun _ => Exec.within_bind (Exec.within_when fun _ => keeps_refreshSource)
        fun _ => keeps_of_same (same_sendHello config)
    simp [Same, ledger, List.mem_append, or_and_right, exists_or]

theorem keeps_start : Within (Keeps (Announced (H := H))) start := by
  refine Exec.within_bind Exec.within_state fun s => Exec.within_ite (fun _ => ?_) fun _ => ?_
  · exact Exec.within_pure _
  · refine Exec.within_ite (fun _ => Exec.within_raise _) fun _ => ?_
    refine Exec.within_bind (keeps_of_same (Exec.within_update fun s => rfl)) fun _ => ?_
    refine Exec.within_bind keeps_refreshSource fun _ => Exec.within_forM fun peer _ => ?_
    exact keeps_of_same (same_sendHello peer)

omit [ContentHash H] in
theorem keeps_removeTarget (device : DeviceId) :
    Within (Keeps (Announced (H := H))) (removeTarget device) := by
  refine Exec.within_update fun s hs => ?_
  refine Ledger.Sound.hear hs ?_
  rintro ⟨peer, hpeer, hhello⟩
  exact hs.heard ⟨peer, List.mem_of_mem_eraseP hpeer, hhello⟩

omit [ContentHash H] in
theorem keeps_setTargetAvailable (device : DeviceId) (available : Bool) :
    Within (Keeps (Announced (H := H))) (setTargetAvailable device available) := by
  refine Exec.keeps_of_wp fun s hs => ?_
  rw [setTargetAvailable, Exec.wp_bind, Exec.wp_state]
  cases hpeer : s.findPeer device with
  | none => exact hs
  | some peer =>
    refine Exec.wp_ite (fun _ => hs) fun _ => ?_
    have hsame : Within (Same ledger)
        (updatePeer device fun peer : Peer H => { peer with available }) :=
      same_updatePeer fun _ => rfl
    have hkept := keeps_of_same hsame s hs
    rw [Exec.wp_bind, updatePeer, Exec.wp_update]
    refine Exec.wp_when (fun hready => ?_) fun _ => hkept
    have hmem := Ledger.Sound.heard hs ⟨peer, List.mem_of_find?_eq_some hpeer, hready.2⟩
    exact Exec.wp_of (keeps_sendManifest hkept hmem device)

omit [ContentHash H] in
theorem same_sendChunk (device : DeviceId) (chunk : Option (Chunk H)) :
    Within (Same ledger) (sendChunk device chunk) := by
  cases chunk with
  | none => exact Exec.within_pure _
  | some chunk => exact same_send rfl

theorem same_pumpUploads (device : DeviceId) (uploads done : List (PendingUpload H)) :
    Within (Same ledger) (pumpUploads device done uploads) := by
  induction uploads generalizing done with
  | nil => exact Exec.within_pure _
  | cons upload rest ih =>
    refine Exec.within_bind Exec.within_state fun s => ?_
    refine Exec.within_bind (same_updatePeer fun _ => rfl) fun _ => ?_
    split
    · exact Exec.within_raise _
    · refine Exec.within_bind (same_sendChunk device _) fun _ => Exec.within_ite (fun _ => ih _) ?_
      exact fun _ => Exec.within_bind (same_updatePeer fun _ => rfl) fun _ => ih _

theorem same_pump : Within (Same (ledger (H := H))) pump := by
  refine Exec.within_bind Exec.within_state fun s => Exec.within_forM fun device _ => ?_
  refine Exec.within_bind Exec.within_state fun s => ?_
  split
  · exact Exec.within_pure _
  · exact Exec.within_when fun _ => same_pumpUploads device _ _

theorem same_receiveData (device : DeviceId) (frame : OneWay.Frame H) :
    Within (Same ledger) (receiveData device frame) := by
  cases frame with
  | fileRequest request =>
    refine Exec.within_bind Exec.within_state fun s => ?_
    split
    · exact same_send rfl
    · refine Exec.within_bind (same_updatePeer fun _ => rfl) fun _ => ?_
      split
      · exact same_send rfl
      · exact same_updatePeer fun _ => rfl
  | cancel cancel => exact same_updatePeer fun _ => rfl
  | _ => exact Exec.within_raise _

/-- A HELLO that is accepted finds a completed scan. -/
def Welcomes (s : Source H) : Action H → Prop
  | .receive _ device channel (.hello hello) =>
    channel = .control → ∀ peer, s.findPeer device = some peer → s.admitsHello peer.config hello →
      1 ≤ s.manifestRevision
  | _ => True

omit [ContentHash H] in
theorem keeps_receiveHello {s : Source H} (hs : s.Announced) {peer : PeerConfig} {hello : Hello}
    (hpos : s.admitsHello peer hello → 1 ≤ s.manifestRevision) :
    (receiveHello peer hello s).2.Announced := by
  refine Exec.of_wp ?_
  rw [receiveHello, Exec.wp_bind, Exec.wp_state]
  refine Exec.wp_ite (fun _ => hs) fun hadmits => ?_
  have hmem := hs.scanned (hpos (not_not.mp hadmits))
  rw [Exec.wp_bind, updatePeer, Exec.wp_update, Exec.wp_bind]
  set s' : Source H := { s with
    peers := s.peers.map fun q =>
      if q.config.deviceId = peer.deviceId then { q with receivedHello := true } else q }
  have hheard : s'.Announced := Ledger.Sound.hear hs fun _ => hmem
  have hhello : (sendHello peer s').2.ledger = s'.ledger := same_sendHello peer s'
  refine Exec.wp_mono (Exec.wp_of (I := fun t => t.ledger = s'.ledger) hhello) (fun _ t ht => ?_)
    fun _ t ht => ?_
  · refine Exec.wp_of (keeps_sendManifest ?_ ?_ _)
    · rw [Announced, ht]
      exact hheard
    · have hmanifest : t.sourceManifest = s.sourceManifest := congrArg Ledger.manifest ht
      have hscans : t.scans = s.scans := congrArg Ledger.scans ht
      rw [hmanifest, hscans]
      exact hmem
  · rw [Announced, ht]
    exact hheard

omit [ContentHash H] in
theorem announced_create (config : Config) (env : Environment) (uuid : Nat → Bytes)
    (initialRevision : UInt64) (db : Database H) (folder : Folder) :
    (create config env uuid initialRevision db folder).Announced where
  heard := by
    rintro ⟨peer, hpeer, -⟩
    exact absurd hpeer List.not_mem_nil
  scanned := nofun
  sent _ hm := absurd hm List.not_mem_nil
  numbered _ := ⟨Nat.le_refl 0, fun _ hm => absurd hm List.not_mem_nil⟩

/-- **One step** of a source with several targets. -/
theorem announced_step (s : Source H) (action : Action H) (hwelcomes : s.Welcomes action)
    (hs : s.Announced) : (s.step action).Announced := by
  cases action with
  | addTarget env config => exact keeps_addTarget config { s with env } hs
  | removeTarget device => exact keeps_removeTarget device s hs
  | start env => exact keeps_start { s with env } hs
  | refreshSource env => exact keeps_refreshSource { s with env } hs
  | pump env => exact keeps_of_same same_pump { s with env } hs
  | setTargetAvailable env device available =>
    exact keeps_setTargetAvailable device available { s with env } hs
  | edit folder => exact hs
  | receive env device channel frame =>
    have hs' : ({ s with env } : Source H).Announced := hs
    have herror : ∀ e : Error, Within (Keeps (Announced (H := H)))
        (updatePeer device fun peer => { peer with lastError := some e.what }) :=
      fun e => keeps_of_same (same_updatePeer fun _ => rfl)
    refine Exec.of_wp ?_
    rw [receive, Exec.wp_bind, Exec.wp_state]
    cases hpeer : ({ s with env } : Source H).findPeer device with
    | none => exact hs'
    | some peer =>
      refine Exec.wp_orElse (Exec.wp_mono (Exec.wp_of (I := Announced) ?_) (fun _ _ h => h)
        fun e t ht => Exec.wp_of (herror e t ht))
      cases frame with
      | malformed error => exact hs'
      | hello hello =>
        refine Exec.of_wp (Exec.wp_ite (fun _ => hs') fun hallowed => Exec.wp_of ?_)
        refine keeps_receiveHello hs' fun hadmits => hwelcomes ?_ peer hpeer hadmits
        cases channel with
        | control => rfl
        | bulk => exact absurd rfl hallowed
      | _ =>
        refine keeps_of_same (Exec.within_ite (fun _ => Exec.within_raise _) fun _ =>
          Exec.within_bind Exec.within_state fun _ =>
            Exec.within_ite (fun _ => Exec.within_raise _) fun _ => same_receiveData _ _) _ hs'

end Source

end MultiTarget

/-! ## One target -/

namespace OneWay

namespace Node

variable {H : Type}

/-- The ledger of a node. -/
def ledger (n : Node H) : Ledger H where
  revision := n.manifestRevision
  manifest := n.sourceManifest
  heard := n.receivedHello
  sent := n.out.filterMap manifestOf
  scans := n.trace.scans

/-- The node is a source that has announced only what it has scanned. -/
structure Announced (n : Node H) : Prop where
  role : n.config.role = .source
  sound : n.ledger.Sound

/-- The members that announcing is about. -/
def announcing (n : Node H) : Config × Ledger H := (n.config, n.ledger)

theorem Announced.of_announcing {n n' : Node H} (h : n'.announcing = n.announcing)
    (hn : n.Announced) : n'.Announced := by
  obtain ⟨hconfig, hledger⟩ := Prod.mk.inj h
  exact ⟨by rw [hconfig, hn.role], by rw [hledger]; exact hn.sound⟩

/-- Functions that neither scan nor send a manifest, nor accept a HELLO. -/
theorem keeps_of_same {α : Type} {m : NodeM H α} (h : Within (Same announcing) m) :
    Within (Keeps Announced) m :=
  fun n hn => hn.of_announcing (h n)

theorem same_send {frame : Frame H} (hframe : manifestOf frame = none) :
    Within (Same announcing) (send frame) := by
  refine Exec.within_update fun n => ?_
  simp [Same, announcing, ledger, List.filterMap_append, hframe]

theorem keeps_sendManifest {n : Node H} (hn : n.Announced)
    (hmem : n.sourceManifest ∈ n.trace.scans) :
    (sendManifest n).2.Announced := by
  refine Exec.of_wp ?_
  rw [sendManifest, Exec.wp_bind, Exec.wp_state, Exec.wp_bind]
  refine Exec.wp_check (fun _ _ => hn) fun _ _ => ?_
  rw [send, Exec.wp_update]
  have hsent := Ledger.Sound.send hn.sound hmem
  exact ⟨hn.role, by simpa [ledger, List.filterMap_append, manifestOf] using hsent⟩

variable [ContentHash H]

theorem keeps_refreshSource : Within (Keeps (Announced (H := H))) refreshSource := by
  refine Exec.keeps_of_wp fun n hn => ?_
  rw [refreshSource, Exec.wp_bind, Exec.wp_state]
  refine Exec.wp_ite (fun _ => hn) fun _ => ?_
  rw [Exec.wp_bind]
  refine Exec.wp_check (fun _ _ => hn) fun snapshot hsnapshot => ?_
  rw [Exec.wp_bind]
  refine Exec.wp_atomic (fun _ _ => hn) fun r n' hreconcile => ?_
  obtain ⟨rules, -, hscan⟩ := ok_of_bind hsnapshot
  have hall : snapshot.all isHashed = true := List.all_eq_true.mpr (isHashed_of_scan hscan)
  obtain ⟨db, rfl⟩ : ∃ db, n' = { n with db } := by
    obtain ⟨r, -, h⟩ := ok_of_map hreconcile
    cases h
    exact ⟨_, rfl⟩
  rw [Exec.wp_bind, Exec.wp_update]
  refine Exec.wp_ite (fun hnot => ?_) fun _ => ?_
  · rw [hall] at hnot
    cases hnot
  · rw [Exec.wp_bind, Exec.wp_update]
    have hscanned := Ledger.Sound.scan hn.sound
      (m := ⟨n.manifestRevision + 1, announcedEntries snapshot⟩) rfl
    refine Exec.wp_when (fun _ => Exec.wp_of (keeps_sendManifest ?_ ?_)) fun _ => ?_
    · exact ⟨hn.role, hscanned⟩
    · exact List.mem_append_right _ List.mem_cons_self
    · exact ⟨hn.role, hscanned⟩

theorem keeps_start : Within (Keeps (Announced (H := H))) start := by
  refine Exec.within_bind Exec.within_state fun n => Exec.within_ite (fun _ => ?_) fun _ => ?_
  · exact Exec.within_pure _
  · refine Exec.within_bind (keeps_of_same (Exec.within_update fun n => rfl)) fun _ => ?_
    refine Exec.within_bind (Exec.within_when fun _ => keeps_refreshSource) fun _ => ?_
    exact keeps_of_same (same_send rfl)

theorem same_handleFileRequest (request : FileRequest H) :
    Within (Same announcing) (handleFileRequest request) := by
  refine Exec.within_bind Exec.within_state fun n => ?_
  split
  · exact same_send rfl
  · refine Exec.within_bind (Exec.within_update fun _ => rfl) fun _ => ?_
    split
    · exact same_send rfl
    · exact Exec.within_update fun _ => rfl

omit [ContentHash H] in
theorem same_sendChunk (chunk : Option (Chunk H)) : Within (Same announcing) (sendChunk chunk) := by
  cases chunk with
  | none => exact Exec.within_pure _
  | some chunk => exact same_send rfl

theorem same_pumpUploads (uploads done : List (PendingUpload H)) :
    Within (Same announcing) (pumpUploads done uploads) := by
  induction uploads generalizing done with
  | nil => exact Exec.within_update fun _ => rfl
  | cons upload rest ih =>
    refine Exec.within_bind Exec.within_state fun n => ?_
    split
    · exact Exec.within_bind (Exec.within_update fun _ => rfl) fun _ => Exec.within_raise _
    · exact Exec.within_bind (same_sendChunk _) fun _ => Exec.within_ite (fun _ => ih _)
        fun _ => ih _

/-- What a source does with a frame other than HELLO. -/
theorem keeps_receiveData (frame : Frame H) :
    Within (Keeps (Announced (H := H))) (receiveData frame) := by
  refine Exec.keeps_of_wp fun n hn => ?_
  rw [receiveData, Exec.wp_bind, Exec.wp_state]
  have hrole : ¬ n.config.role = .target := by
    rw [hn.role]
    exact nofun
  cases frame with
  | manifest manifest => exact Exec.wp_ite (fun _ => hn) fun h => absurd (not_not.mp h) hrole
  | chunk chunk => exact Exec.wp_ite (fun _ => hn) fun h => absurd (not_not.mp h) hrole
  | fileRequest request =>
    refine Exec.wp_ite (fun _ => hn) fun _ => Exec.wp_of ?_
    exact hn.of_announcing (same_handleFileRequest request n)
  | cancel cancel =>
    show Exec.Wp (handleCancel cancel) _ _ n
    rw [handleCancel, Exec.wp_bind, Exec.wp_state]
    exact Exec.wp_ite (fun h => absurd h hrole) fun _ => ⟨hn.role, hn.sound⟩
  | _ => exact hn

/-- A HELLO that is accepted finds a completed scan. -/
def Welcomes (n : Node H) : Action H → Prop
  | .receive _ channel (.hello hello) =>
    channel = .control → n.admitsHello hello → 1 ≤ n.manifestRevision
  | _ => True

omit [ContentHash H] in
theorem keeps_receiveHello {n : Node H} (hn : n.Announced) {hello : Hello}
    (hpos : n.admitsHello hello → 1 ≤ n.manifestRevision) :
    (receiveHello hello n).2.Announced := by
  refine Exec.of_wp ?_
  rw [receiveHello, Exec.wp_bind, Exec.wp_state]
  refine Exec.wp_ite (fun _ => hn) fun hadmits => ?_
  have hmem := hn.sound.scanned (hpos (not_not.mp hadmits))
  rw [Exec.wp_bind, Exec.wp_update]
  have hheard : ({ n with receivedHello := true } : Node H).Announced :=
    ⟨hn.role, Ledger.Sound.hear hn.sound fun _ => hmem⟩
  refine Exec.wp_when (fun _ => ?_) fun _ => hheard
  rw [Exec.wp_bind, send, Exec.wp_update]
  refine Exec.wp_of (keeps_sendManifest (hheard.of_announcing ?_) hmem)
  simp [announcing, ledger, List.filterMap_append, manifestOf]

omit [ContentHash H] in
/-- The scans of earlier processes are remembered by the trace alone: the revision starts again. -/
theorem announced_restart {n : Node H} (hn : n.Announced) : n.restart.Announced where
  role := hn.role
  sound := {
    heard := nofun
    scanned := nofun
    sent := nofun
    numbered := fun hcount => ⟨Nat.zero_le _, (hn.sound.numbered hcount).2⟩ }

omit [ContentHash H] in
theorem same_persistPendingDownloads (force : Bool) :
    Within (Same (announcing (H := H))) (persistPendingDownloads force) := by
  refine Exec.within_bind Exec.within_state fun _ => Exec.within_forM fun index _ => ?_
  refine Exec.within_bind Exec.within_state fun n => ?_
  split
  · exact Exec.within_pure _
  · exact Exec.within_when fun _ => Exec.within_bind (fun _ => rfl) fun _ =>
      Exec.within_update fun _ => rfl

omit [ContentHash H] in
theorem announced_create {config : Config} (env : VeritasSync.Environment) (uuid : Nat → Bytes)
    (transferId : Nat → TransferId) (initialRevision : UInt64) (db : Database H) (folder : Folder)
    (hrole : config.role = .source) :
    (create config env uuid transferId initialRevision db folder).Announced :=
  ⟨hrole, nofun, nofun, nofun, fun _ => ⟨Nat.le_refl 0, nofun⟩⟩

/-- **One step** of a source with one target. -/
theorem announced_step (n : Node H) (action : Action H) (hwelcomes : n.Welcomes action)
    (hn : n.Announced) : (n.step action).Announced := by
  have henv : ∀ env, ({ n with env } : Node H).Announced := fun env => ⟨hn.role, hn.sound⟩
  cases action with
  | start env => exact keeps_start _ (henv env)
  | refreshSource env => exact keeps_refreshSource _ (henv env)
  | pump env =>
    refine Exec.of_wp ?_
    rw [pump, Exec.wp_bind, Exec.wp_state]
    refine Exec.wp_ite (fun h => ?_) fun _ => ?_
    · exact absurd (hn.role.symm.trans h) nofun
    · exact Exec.wp_of (keeps_of_same (same_pumpUploads _ _) _ (henv env))
  | shutdown env =>
    exact announced_restart
      ((henv env).of_announcing (same_persistPendingDownloads true { n with env }))
  | crash => exact announced_restart hn
  | edit folder => exact ⟨hn.role, hn.sound⟩
  | receive env channel frame =>
    have herror : ∀ e : Error, Within (Keeps (Announced (H := H)))
        (Exec.update fun n => { n with lastError := some e.what }) :=
      fun e => keeps_of_same (Exec.within_update fun _ => rfl)
    refine Exec.of_wp (Exec.wp_orElse (Exec.wp_mono (Exec.wp_of (I := Announced) ?_)
      (fun _ _ h => h) fun e t ht => Exec.wp_of (herror e t ht)))
    cases frame with
    | malformed error => exact henv env
    | hello hello =>
      refine Exec.of_wp (Exec.wp_ite (fun _ => henv env) fun hallowed => Exec.wp_of ?_)
      refine keeps_receiveHello (henv env) fun hadmits => hwelcomes ?_ hadmits
      cases channel with
      | control => rfl
      | bulk => exact absurd rfl hallowed
    | _ =>
      refine Exec.within_ite (fun _ => Exec.within_raise _) (fun _ =>
        Exec.within_bind Exec.within_state fun _ =>
          Exec.within_ite (fun _ => Exec.within_raise _) fun _ => keeps_receiveData _) _ (henv env)

end Node

end OneWay

/-! ## Runs -/

section Runs

variable {H : Type} [ContentHash H]

/-- **A source announces what it has scanned.**  In a run of a source with several targets, and in a
run of a source with one, that accepts no HELLO before the first completed scan, every manifest sent
is the manifest of a completed scan; and its revision is positive as long as the 64 bits of the
revision have not been counted through.  What the revision of the empty manifest holds before the
first scan makes no difference. -/
theorem sources_announce_scans :
    (∀ (config : MultiTarget.Config) (env : MultiTarget.Environment) (uuid : Nat → Bytes)
      (initialRevision : UInt64) (db : Database H) (folder : Folder)
      (actions : List (MultiTarget.Source.Action H)),
      Run.Along MultiTarget.Source.step MultiTarget.Source.Welcomes
        (.create config env uuid initialRevision db folder) actions →
      ∀ device m, (device, .manifest m) ∈
        (Run.run MultiTarget.Source.step (.create config env uuid initialRevision db folder)
          actions).sent →
        m ∈ (Run.run MultiTarget.Source.step (.create config env uuid initialRevision db folder)
            actions).scans ∧
          ((Run.run MultiTarget.Source.step (.create config env uuid initialRevision db folder)
            actions).scans.length < 2 ^ 64 → 1 ≤ m.revision)) ∧
    ∀ (config : OneWay.Config) (env : Environment) (uuid : Nat → Bytes)
      (transferId : Nat → TransferId) (initialRevision : UInt64) (db : Database H)
      (folder : Folder) (actions : List (OneWay.Node.Action H)), config.role = .source →
      Run.Along OneWay.Node.step OneWay.Node.Welcomes
        (.create config env uuid transferId initialRevision db folder) actions →
      ∀ m, .manifest m ∈
        (Run.run OneWay.Node.step (.create config env uuid transferId initialRevision db folder)
          actions).out →
        m ∈ (Run.run OneWay.Node.step (.create config env uuid transferId initialRevision db folder)
            actions).trace.scans ∧
          ((Run.run OneWay.Node.step (.create config env uuid transferId initialRevision db folder)
            actions).trace.scans.length < 2 ^ 64 → 1 ≤ m.revision) := by
  constructor
  · intro config env uuid initialRevision db folder actions hwelcomes device m hm
    have hsound := Run.run_invariant MultiTarget.Source.announced_step actions _ hwelcomes
      (MultiTarget.Source.announced_create config env uuid initialRevision db folder)
    exact hsound.announced (List.mem_filterMap.mpr ⟨_, hm, rfl⟩)
  · intro config env uuid transferId initialRevision db folder actions hrole hwelcomes m hm
    have hannounced := Run.run_invariant OneWay.Node.announced_step actions _ hwelcomes
      (OneWay.Node.announced_create env uuid transferId initialRevision db folder hrole)
    exact hannounced.sound.announced (List.mem_filterMap.mpr ⟨_, hm, rfl⟩)

end Runs

/-! ## Two sources -/

/-- A sample source with several targets. -/
def MultiTarget.Config.sample : MultiTarget.Config where
  taskId := ascii "t"
  deviceId := ascii "s"
  deviceFingerprint := ascii "F"
  taskId_ne := OneWay.sampleTaskId_ne
  deviceId_ne := OneWay.sampleDeviceId_ne
  deviceFingerprint_ne := OneWay.sampleFingerprint_ne

/-- Nothing is buffered, and every frame is taken. -/
def MultiTarget.Environment.sample : MultiTarget.Environment :=
  ⟨⟨1, Int.one_pos⟩, fun _ => 0, fun _ _ => 0, fun _ _ => false⟩

/-- A sample source over the folder with one file. -/
def MultiTarget.Source.sample : MultiTarget.Source Bytes :=
  .create .sample .sample (fun i => List.replicate (i + 1) 1) 0 .empty byteFolder

/-- A sample target. -/
def MultiTarget.PeerConfig.sample (device : DeviceId) : MultiTarget.PeerConfig :=
  ⟨device, ascii "G", ascii "D"⟩

/-- The HELLO of a sample target. -/
def helloFrom (device : DeviceId) : Hello := ⟨ascii "t", .target, device, ascii "G", ascii "D"⟩

/-- A source is started, and then a target says HELLO. -/
def startThenHello : List (MultiTarget.Source.Action Bytes) :=
  [.addTarget .sample (.sample (ascii "a")), .start .sample,
    .receive .sample (ascii "a") .control (.hello (helloFrom (ascii "a")))]

/-- The manifest sent lists the file of the folder, which has been scanned. -/
theorem sources_announce_scans_started :
    (ascii "a", .manifest ⟨1, [⟨ascii "f", 1, .hash [7]⟩]⟩) ∈
        (Run.run MultiTarget.Source.step .sample startThenHello).sent ∧
      (⟨1, [⟨ascii "f", 1, .hash [7]⟩]⟩ : OneWay.Manifest Bytes) ∈
        (Run.run MultiTarget.Source.step .sample startThenHello).scans := by
  have hsent : (ascii "a", .manifest ⟨1, [⟨ascii "f", 1, .hash [7]⟩]⟩) ∈
      (Run.run MultiTarget.Source.step .sample startThenHello).sent := by decide +kernel
  refine ⟨hsent, (sources_announce_scans.1 _ _ _ _ _ _ startThenHello ?_ _ _ hsent).1⟩
  refine ⟨trivial, trivial, fun _ _ _ _ => ?_, trivial⟩
  show 1 ≤ (Run.run MultiTarget.Source.step .sample (startThenHello.take 2)).manifestRevision
  decide +kernel

/-- A target that says HELLO before `Start` is sent the empty manifest of revision 0: by a source
with several targets, and by a source with one. -/
theorem unscanned_manifest_announced :
    (∃ actions, (ascii "a", .manifest ⟨0, []⟩) ∈
        (Run.run MultiTarget.Source.step MultiTarget.Source.sample actions).sent) ∧
      ∃ actions, .manifest ⟨0, []⟩ ∈
        (Run.run OneWay.Node.step (.sample .source (by decide) byteFolder) actions).out :=
  ⟨⟨[.addTarget .sample (.sample (ascii "a")),
      .receive .sample (ascii "a") .control (.hello (helloFrom (ascii "a")))], by decide +kernel⟩,
    ⟨[.receive sampleEnvironment .control (.hello (helloFrom (ascii "a")))], by decide +kernel⟩⟩

end VeritasSync
