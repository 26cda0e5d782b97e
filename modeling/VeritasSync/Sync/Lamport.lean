import VeritasSync.Sync.Scan

/-!
# Clocks and lineage

Every version is created once, on one device, with a clock, an origin and a parent.  The list of
all creations — `minted` on the two devices — is the history the rest of the state talks about:
lineage rows, stored records, manifests in flight and downloads in progress all repeat creations,
they never make one up.

`History` is what such a list satisfies: identifiers are unique, a parent has a smaller clock than
its child, and no two creations share clock and origin.  `NodeInv` says that everything a node holds
comes from the history and that its clock has passed everything it has seen.  A scan extends the
history by versions whose clock is the node's next one; a manifest only copies from it.

The clocks are Lamport clocks, with one peculiarity: a node also advances its clock when it sees an
entry that it does not apply.  It may, and it is what makes the next version of this node larger
than anything it has ever seen, applied or not.
-/

set_option autoImplicit false
set_option linter.unusedSectionVars false

namespace VeritasSync

variable {H : Type}

/-! ## Histories -/

/-- The creation a manifest entry describes. -/
def creationOf (entry : VersionedManifestEntry H) : Creation :=
  ⟨entry.versionId, Node.entryParent entry, entry.relativePath, entry.originDeviceId,
    entry.logicalClock⟩

/-- The creation a record with the given parent describes. -/
def recordCreationOf (record : FileRecord H) (parent : Option VersionId) : Creation :=
  ⟨record.versionId, parent, record.relativePath, record.originDeviceId, record.logicalClock⟩

/-- A list of creations as the devices make them. -/
structure History (cs : List Creation) : Prop where
  nonempty : ∀ c ∈ cs, c.versionId ≠ []
  unique : ∀ c ∈ cs, ∀ c' ∈ cs, c.versionId = c'.versionId → c = c'
  parents : ∀ c ∈ cs, ∀ u, c.parentVersionId = some u →
    ∃ c' ∈ cs, c'.versionId = u ∧ c'.logicalClock < c.logicalClock
  stamps : ∀ c ∈ cs, ∀ c' ∈ cs, c.logicalClock = c'.logicalClock →
    c.originDeviceId = c'.originDeviceId → c = c'

/-- Only the members of the list matter. -/
theorem History.congr {cs cs' : List Creation} (h : History cs) (hmem : ∀ c, c ∈ cs' ↔ c ∈ cs) :
    History cs' where
  nonempty c hc := h.nonempty c ((hmem c).mp hc)
  unique c hc c' hc' := h.unique c ((hmem c).mp hc) c' ((hmem c').mp hc')
  parents c hc u hu := by
    obtain ⟨c', hc', hrest⟩ := h.parents c ((hmem c).mp hc) u hu
    exact ⟨c', (hmem c').mpr hc', hrest⟩
  stamps c hc c' hc' := h.stamps c ((hmem c).mp hc) c' ((hmem c').mp hc')

/-- A creation with a new identifier, a known parent with a smaller clock and a new stamp extends a
history. -/
theorem History.extend {cs cs' : List Creation} (h : History cs) {c : Creation}
    (hmem : ∀ d, d ∈ cs' ↔ d = c ∨ d ∈ cs) (hne : c.versionId ≠ [])
    (hfresh : ∀ d ∈ cs, d.versionId ≠ c.versionId)
    (hparent : ∀ u, c.parentVersionId = some u →
      ∃ d ∈ cs, d.versionId = u ∧ d.logicalClock < c.logicalClock)
    (hstamp : ∀ d ∈ cs, d.logicalClock = c.logicalClock → d.originDeviceId ≠ c.originDeviceId) :
    History cs' where
  nonempty d hd := by
    rcases (hmem d).mp hd with rfl | hd
    · exact hne
    · exact h.nonempty d hd
  unique d hd d' hd' heq := by
    rcases (hmem d).mp hd with rfl | hd
    · rcases (hmem d').mp hd' with rfl | hd'
      · rfl
      · exact absurd heq.symm (hfresh d' hd')
    · rcases (hmem d').mp hd' with rfl | hd'
      · exact absurd heq (hfresh d hd)
      · exact h.unique d hd d' hd' heq
  parents d hd u hu := by
    have hlift : (∃ p ∈ cs, p.versionId = u ∧ p.logicalClock < d.logicalClock) →
        ∃ p ∈ cs', p.versionId = u ∧ p.logicalClock < d.logicalClock :=
      fun ⟨p, hp, hrest⟩ => ⟨p, (hmem p).mpr (.inr hp), hrest⟩
    rcases (hmem d).mp hd with rfl | hd
    · exact hlift (hparent u hu)
    · exact hlift (h.parents d hd u hu)
  stamps d hd d' hd' hclock horigin := by
    rcases (hmem d).mp hd with rfl | hd
    · rcases (hmem d').mp hd' with rfl | hd'
      · rfl
      · exact absurd horigin.symm (hstamp d' hd' hclock.symm)
    · rcases (hmem d').mp hd' with rfl | hd'
      · exact absurd horigin (hstamp d hd hclock)
      · exact h.stamps d hd d' hd' hclock horigin

/-! ## The invariant of one node -/

namespace Node

open Exec

/-- The identifiers a node draws are not empty and never repeat. -/
structure Supply (uuid : Nat → Bytes) : Prop where
  injective : Function.Injective uuid
  nonempty : ∀ i, uuid i ≠ []

/-- Every creation, this node's first. -/
def created (others : List Creation) (n : Node H) : List Creation := n.db.minted ++ others

/-- Everything the node holds comes from the history, and its clock has passed all of it.  `others`
are the creations of the peer, and `past` are creations known at some earlier time. -/
structure NodeInv (others past : List Creation) (n : Node H) : Prop where
  grows : ∀ c ∈ past, c ∈ n.created others
  history : History (n.created others)
  supply : Supply n.uuid
  minted : ∀ c ∈ n.db.minted, c.originDeviceId = n.config.deviceId ∧
    c.logicalClock ≤ n.db.logicalClock ∧ ∃ i < n.uuidsUsed, c.versionId = n.uuid i
  foreign : ∀ c ∈ others, c.originDeviceId ≠ n.config.deviceId ∧ ∀ i, c.versionId ≠ n.uuid i
  rows : ∀ v parent, n.db.lineage.find v = some parent →
    ∃ c ∈ n.created others, c.versionId = v ∧ c.parentVersionId = parent
  records : ∀ p r, n.db.records.find p = some r → r.relativePath = p ∧ ∃ parent,
    n.db.lineage.find r.versionId = some parent ∧
      recordCreationOf r parent ∈ n.created others ∧ r.logicalClock ≤ n.db.logicalClock
  own : ∀ p r, n.db.records.find p = some r →
    r.taskId = n.config.taskId ∧ Database.validateFileRecord r = .ok ()
  downloads : ∀ d ∈ n.downloads, creationOf d.entry ∈ n.created others ∧
    n.db.lineage.find d.entry.versionId = some (entryParent d.entry) ∧
      d.entry.logicalClock ≤ n.db.logicalClock
  sent : ∀ m, Frame.versionManifest m ∈ n.out → ∀ e ∈ m.entries, creationOf e ∈ n.created others
  observed : ∀ e ∈ n.trace.observed, e.logicalClock ≤ n.db.logicalClock

namespace NodeInv

variable {others past : List Creation} {n : Node H}

/-- The parts of a node the invariant does not mention may change. -/
theorem congr {n' : Node H} (h : NodeInv others past n) (hconfig : n'.config = n.config)
    (huuid : n'.uuid = n.uuid) (hused : n.uuidsUsed ≤ n'.uuidsUsed)
    (hminted : n'.db.minted = n.db.minted) (hlineage : n'.db.lineage = n.db.lineage)
    (hrecords : n'.db.records = n.db.records) (hclock : n.db.logicalClock ≤ n'.db.logicalClock)
    (hdownloads : ∀ d ∈ n'.downloads, ∃ d' ∈ n.downloads, d.entry = d'.entry)
    (hsent : ∀ m, Frame.versionManifest m ∈ n'.out → Frame.versionManifest m ∈ n.out)
    (hobserved : ∀ e ∈ n'.trace.observed, e.logicalClock ≤ n'.db.logicalClock) :
    NodeInv others past n' := by
  have hcreated : n'.created others = n.created others := by rw [created, created, hminted]
  refine ⟨?_, ?_, ?_, ?_, ?_, ?_, ?_, ?_, ?_, ?_, hobserved⟩
  · rw [hcreated]
    exact h.grows
  · exact hcreated ▸ h.history
  · exact huuid ▸ h.supply
  · intro c hc
    rw [hminted] at hc
    obtain ⟨horigin, hle, i, hi, hv⟩ := h.minted c hc
    exact ⟨hconfig ▸ horigin, hle.trans hclock, i, hi.trans_le hused, huuid ▸ hv⟩
  · rw [hconfig, huuid]
    exact h.foreign
  · rw [hlineage, hcreated]
    exact h.rows
  · intro p r hr
    rw [hrecords] at hr
    obtain ⟨hkey, parent, hrow, hmem, hle⟩ := h.records p r hr
    exact ⟨hkey, parent, hlineage ▸ hrow, hcreated ▸ hmem, hle.trans hclock⟩
  · rw [hrecords, hconfig]
    exact h.own
  · intro d hd
    obtain ⟨d', hd', heq⟩ := hdownloads d hd
    obtain ⟨hmem, hrow, hle⟩ := h.downloads d' hd'
    rw [heq, hcreated, hlineage]
    exact ⟨hmem, hrow, hle.trans hclock⟩
  · intro m hm
    rw [hcreated]
    exact h.sent m (hsent m hm)

/-- Nothing the invariant mentions changes but the clock, which grows. -/
theorem clock (h : NodeInv others past n) {clock : Nat} (hclock : n.db.logicalClock ≤ clock) :
    NodeInv others past { n with db := { n.db with logicalClock := clock } } :=
  h.congr rfl rfl le_rfl rfl rfl rfl hclock (fun d hd => ⟨d, hd, rfl⟩) (fun _ hm => hm)
    fun e he => (h.observed e he).trans hclock

theorem spend (h : NodeInv others past n) : NodeInv others past n.spend := { h with }

theorem uuid (h : NodeInv others past n) : NodeInv others past
    { n with uuidsUsed := n.uuidsUsed + 1 } :=
  h.congr rfl rfl (Nat.le_succ _) rfl rfl rfl le_rfl (fun d hd => ⟨d, hd, rfl⟩) (fun _ hm => hm)
    h.observed

/-- The next identifier is not one of the history. -/
theorem versionId_ne (h : NodeInv others past n) {c : Creation} (hc : c ∈ n.created others) :
    c.versionId ≠ n.uuid n.uuidsUsed := by
  rcases List.mem_append.mp hc with hc | hc
  · obtain ⟨-, -, i, hi, hv⟩ := h.minted c hc
    rw [hv]
    exact fun heq => hi.ne (h.supply.injective heq)
  · exact (h.foreign c hc).2 _

/-- A new row for a version of the history. -/
theorem row (h : NodeInv others past n) {lineage : OrdMap VersionId (Option VersionId)}
    {v : VersionId}
    {parent : Option VersionId} (hold : ∀ q, n.db.lineage.find v = some q → q = parent)
    (hfind : ∀ u, lineage.find u = if u = v then some parent else n.db.lineage.find u)
    (hmem : ∃ c ∈ n.created others, c.versionId = v ∧ c.parentVersionId = parent) :
    NodeInv others past { n with db := { n.db with lineage := lineage } } := by
  have hkeep : ∀ u q, n.db.lineage.find u = some q → lineage.find u = some q := by
    intro u q hu
    rw [hfind]
    split
    · rename_i huv
      rw [hold q (huv ▸ hu)]
    · exact hu
  refine { h with rows := ?_, records := ?_, downloads := ?_ }
  · intro u q hu
    rw [hfind] at hu
    split at hu
    · rename_i huv
      obtain ⟨c, hc, hcv, hcp⟩ := hmem
      exact ⟨c, hc, hcv.trans huv.symm, hcp.trans (Option.some.inj hu)⟩
    · exact h.rows u q hu
  · intro p r hr
    obtain ⟨hkey, q, hrow, hrest⟩ := h.records p r hr
    exact ⟨hkey, q, hkeep _ _ hrow, hrest⟩
  · intro d hd
    obtain ⟨hc, hrow, hle⟩ := h.downloads d hd
    exact ⟨hc, hkeep _ _ hrow, hle⟩

/-- A version created with the identifier just drawn and the clock just advanced. -/
theorem mint (h : NodeInv others past n) {lineage : OrdMap VersionId (Option VersionId)}
    {c : Creation}
    (hclock : c.logicalClock ≤ n.db.logicalClock)
    (hnew : ∀ d ∈ n.db.minted, d.logicalClock < c.logicalClock)
    (horigin : c.originDeviceId = n.config.deviceId) {i : Nat} (hi : i < n.uuidsUsed)
    (hv : c.versionId = n.uuid i) (hunused : ∀ d ∈ n.db.minted, d.versionId ≠ n.uuid i)
    (hparent : ∀ u, c.parentVersionId = some u →
      ∃ d ∈ n.created others, d.versionId = u ∧ d.logicalClock < c.logicalClock)
    (hfind : ∀ u, lineage.find u
      = if u = c.versionId then some c.parentVersionId else n.db.lineage.find u) :
    NodeInv others past
      { n with db := { n.db with lineage := lineage, minted := n.db.minted ++ [c] } } := by
  -- nobody has used the identifier: not this node, and not the others, who draw from other supplies
  have hfresh : ∀ d ∈ n.created others, d.versionId ≠ c.versionId := by
    intro d hd
    rw [hv]
    rcases List.mem_append.mp hd with hd | hd
    · exact hunused d hd
    · exact (h.foreign d hd).2 i
  have hmem : ∀ d, d ∈ (n.db.minted ++ [c]) ++ others ↔ d = c ∨ d ∈ n.created others := by
    intro d
    simp only [created, List.mem_append, List.mem_singleton]
    tauto
  have hnorow : ∀ u q, n.db.lineage.find u = some q → u ≠ c.versionId := by
    intro u q hu
    obtain ⟨d, hd, hdv, -⟩ := h.rows u q hu
    exact hdv ▸ hfresh d hd
  have hkeep : ∀ u q, n.db.lineage.find u = some q → lineage.find u = some q := by
    intro u q hu
    rw [hfind, if_neg (hnorow u q hu), hu]
  refine ⟨?_, ?_, h.supply, ?_, h.foreign, ?_, ?_, h.own, ?_, ?_, h.observed⟩
  · exact fun d hd => (hmem d).mpr (.inr (h.grows d hd))
  -- no version has the place of the new one: this node's are earlier, the others' have another
  -- origin
  · refine h.history.extend hmem (hv ▸ h.supply.nonempty i) hfresh hparent fun d hd heq => ?_
    rcases List.mem_append.mp hd with hd | hd
    · exact absurd heq (ne_of_lt (hnew d hd))
    · rw [horigin]
      exact (h.foreign d hd).1
  · intro d hd
    rcases List.mem_append.mp hd with hd | hd
    · exact h.minted d hd
    · rw [List.mem_singleton.mp hd]
      exact ⟨horigin, hclock, i, hi, hv⟩
  · intro u q hu
    rw [hfind] at hu
    split at hu
    · rename_i huc
      exact ⟨c, (hmem c).mpr (.inl rfl), huc.symm, Option.some.inj hu⟩
    · obtain ⟨d, hd, hrest⟩ := h.rows u q hu
      exact ⟨d, (hmem d).mpr (.inr hd), hrest⟩
  · intro p r hr
    obtain ⟨hkey, q, hrow, hc, hle⟩ := h.records p r hr
    exact ⟨hkey, q, hkeep _ _ hrow, (hmem _).mpr (.inr hc), hle⟩
  · intro d hd
    obtain ⟨hc, hrow, hle⟩ := h.downloads d hd
    exact ⟨(hmem _).mpr (.inr hc), hkeep _ _ hrow, hle⟩
  · exact fun m hm e he => (hmem _).mpr (.inr (h.sent m hm e he))

/-- A record whose version has a row and whose clock has been passed. -/
theorem upsert (h : NodeInv others past n) {r : FileRecord H} {parent : Option VersionId}
    (hrow : n.db.lineage.find r.versionId = some parent)
    (hmem : recordCreationOf r parent ∈ n.created others)
    (hclock : r.logicalClock ≤ n.db.logicalClock) (htask : r.taskId = n.config.taskId)
    (hvalid : Database.validateFileRecord r = .ok ()) :
    NodeInv others past
      { n with db := { n.db with records := n.db.records.insert r.relativePath r } } := by
  refine { h with records := fun q s hs => ?_, own := fun q s hs => ?_ }
  · rw [OrdMap.find_insert] at hs
    split at hs
    · rename_i hq
      cases hs
      exact ⟨hq.symm, parent, hrow, hmem, hclock⟩
    · exact h.records q s hs
  · rw [OrdMap.find_insert] at hs
    split at hs
    · cases hs
      exact ⟨htask, hvalid⟩
    · exact h.own q s hs

/-- The downloads are after the same things. -/
theorem sessions (h : NodeInv others past n) {l : List (ActiveDownload H)}
    (hl : ∀ d ∈ l, ∃ d' ∈ n.downloads, SameGoal d' d) :
    NodeInv others past { n with downloads := l } := by
  refine { h with downloads := fun d hd => ?_ }
  obtain ⟨d', hd', hgoal⟩ := hl d hd
  rw [hgoal.entry]
  exact h.downloads d' hd'

theorem transfer (h : NodeInv others past n) {f : Frame H} (hf : IsTransfer f) :
    NodeInv others past { n with out := n.out ++ [f] } := by
  refine { h with sent := fun m hm => h.sent m ?_ }
  rcases List.mem_append.mp hm with hm | hm
  · exact hm
  · rw [← List.mem_singleton.mp hm] at hf
    exact hf.elim

/-- The peer has created more versions. -/
theorem grow {others' past' : List Creation} (h : NodeInv others past n)
    (hpast : ∀ c ∈ past', c ∈ n.created others')
    (hhistory : History (n.created others')) (hsub : ∀ c ∈ others, c ∈ others')
    (hothers : ∀ c ∈ others', c.originDeviceId ≠ n.config.deviceId ∧ ∀ i, c.versionId ≠ n.uuid i) :
    NodeInv others' past' n := by
  have hcreated : ∀ c ∈ n.created others, c ∈ n.created others' := by
    intro c hc
    rcases List.mem_append.mp hc with hc | hc
    · exact List.mem_append_left _ hc
    · exact List.mem_append_right _ (hsub c hc)
  refine ⟨hpast, hhistory, h.supply, h.minted, hothers, ?_, ?_, h.own, ?_, ?_, h.observed⟩
  · intro v parent hv
    obtain ⟨c, hc, hrest⟩ := h.rows v parent hv
    exact ⟨c, hcreated c hc, hrest⟩
  · intro p r hr
    obtain ⟨hkey, parent, hrow, hc, hle⟩ := h.records p r hr
    exact ⟨hkey, parent, hrow, hcreated _ hc, hle⟩
  · intro d hd
    obtain ⟨hc, hrest⟩ := h.downloads d hd
    exact ⟨hcreated _ hc, hrest⟩
  · exact fun m hm e he => hcreated _ (h.sent m hm e he)

/-- Along a chain of rows the clocks of the creations fall. -/
theorem clock_lt_of_strictlyAbove (h : NodeInv others past n) {u v : VersionId}
    (habove : Climb.StrictlyAbove n.db.parentOf v u) :
    ∃ c ∈ n.created others, ∃ d ∈ n.created others, c.versionId = u ∧ d.versionId = v ∧
      c.logicalClock < d.logicalClock := by
  have hedge : ∀ {x p}, n.db.parentOf x = some p → ∃ c ∈ n.created others,
      ∃ d ∈ n.created others, c.versionId = p ∧ d.versionId = x ∧
        c.logicalClock < d.logicalClock := by
    intro x p hp
    obtain ⟨d, hd, hdv, hdp⟩ := h.rows x (some p) (Option.join_eq_some_iff.mp hp)
    obtain ⟨c, hc, hcv, hlt⟩ := h.history.parents d hd p hdp
    exact ⟨c, hc, d, hd, hcv, hdv, hlt⟩
  induction habove with
  | single hp => exact hedge hp
  | tail _ hp ih =>
    obtain ⟨c, hc, d, hd, hcv, hdv, hlt⟩ := ih
    obtain ⟨c', hc', d', hd', hcv', hdv', hlt'⟩ := hedge hp
    obtain rfl : d' = c := h.history.unique d' hd' c hc (hdv'.trans hcv.symm)
    exact ⟨c', hc', d, hd, hcv', hdv, hlt'.trans hlt⟩

theorem acyclic (h : NodeInv others past n) (v : VersionId) :
    ¬ Climb.StrictlyAbove n.db.parentOf v v := by
  intro hv
  obtain ⟨c, hc, d, hd, hcv, hdv, hlt⟩ := h.clock_lt_of_strictlyAbove hv
  obtain rfl := h.history.unique c hc d hd (hcv.trans hdv.symm)
  exact lt_irrefl _ hlt

theorem keyed (h : NodeInv others past n) : n.db.Keyed := fun p r hr => (h.records p r hr).1

end NodeInv

/-! ## Scans

A scan makes several versions in one go, and the invariant has to hold after each of them, since the
storage may fail between any two.  What is fixed during a scan are the records it started from; they
are where the parents come from. -/

/-- The invariant during a scan that started with the records `known`. -/
structure ScanInv (others past : List Creation) (known : List (FileRecord H)) (n : Node H) : Prop
    extends NodeInv others past n where
  ownKnown : ∀ r ∈ known, r.taskId = n.config.taskId
  known : ∀ r ∈ known, ∃ parent, n.db.lineage.find r.versionId = some parent ∧
    recordCreationOf r parent ∈ n.created others ∧ r.logicalClock ≤ n.db.logicalClock

namespace ScanInv

variable {others past : List Creation} {known : List (FileRecord H)} {n : Node H}

theorem spend (h : ScanInv others past known n) : ScanInv others past known n.spend := { h with }

theorem clock (h : ScanInv others past known n) {clock : Nat} (hclock : n.db.logicalClock ≤ clock) :
    ScanInv others past known { n with db := { n.db with logicalClock := clock } } where
  toNodeInv := h.toNodeInv.clock hclock
  known r hr := by
    obtain ⟨parent, hrow, hc, hle⟩ := h.known r hr
    exact ⟨parent, hrow, hc, hle.trans hclock⟩
  ownKnown := h.ownKnown

theorem uuid (h : ScanInv others past known n) :
    ScanInv others past known { n with uuidsUsed := n.uuidsUsed + 1 } :=
  ⟨h.toNodeInv.uuid, h.ownKnown, h.known⟩

/-- The next identifier with the next clock makes a version of any known one. -/
theorem create (h : ScanInv others past known n) {clock : Nat} (hclock : n.db.logicalClock < clock)
    {previous : Option (FileRecord H)} (hprevious : ∀ r ∈ previous, r ∈ known) (path : Path)
    {lineage : OrdMap VersionId (Option VersionId)}
    (hfind : ∀ u, lineage.find u = if u = n.uuid n.uuidsUsed then
      some (previous.map FileRecord.versionId) else n.db.lineage.find u) :
    ScanInv others past known { n with
      uuidsUsed := n.uuidsUsed + 1
      db := { n.db with
        logicalClock := clock
        lineage := lineage
        minted := n.db.minted ++ [⟨n.uuid n.uuidsUsed, previous.map FileRecord.versionId, path,
          n.config.deviceId, clock⟩] } } := by
  have hinv := (h.toNodeInv.clock hclock.le).uuid
  refine ⟨hinv.mint (i := n.uuidsUsed) le_rfl ?_ rfl (Nat.lt_succ_self _) rfl ?_ ?_ hfind,
    h.ownKnown, ?_⟩
  · exact fun d hd => (h.minted d hd).2.1.trans_lt hclock
  · exact fun d hd => h.versionId_ne (List.mem_append_left _ hd)
  · intro u hu
    obtain ⟨r, hr, rfl⟩ := Option.map_eq_some_iff.mp hu
    obtain ⟨parent, -, hc, hle⟩ := h.known r (hprevious r hr)
    exact ⟨_, hc, rfl, hle.trans_lt hclock⟩
  · intro r hr
    obtain ⟨parent, hrow, hc, hle⟩ := h.known r hr
    refine ⟨parent, ?_, ?_, hle.trans hclock.le⟩
    · obtain ⟨d, hd, hv, -⟩ := h.rows _ _ hrow
      rw [hfind, if_neg (hv ▸ h.versionId_ne hd), hrow]
    · simp only [created, List.mem_append, List.mem_singleton] at hc ⊢
      tauto

theorem upsert (h : ScanInv others past known n) {r : FileRecord H} {parent : Option VersionId}
    (hrow : n.db.lineage.find r.versionId = some parent)
    (hmem : recordCreationOf r parent ∈ n.created others)
    (hclock : r.logicalClock ≤ n.db.logicalClock) (htask : r.taskId = n.config.taskId)
    (hvalid : Database.validateFileRecord r = .ok ()) :
    ScanInv others past known
      { n with db := { n.db with records := n.db.records.insert r.relativePath r } } :=
  ⟨h.toNodeInv.upsert hrow hmem hclock htask hvalid, h.ownKnown, h.known⟩

end ScanInv

section Scan

variable {others past : List Creation} {known : List (FileRecord H)}

/-- What `createVersion` returns has its row and its place in the history. -/
theorem wp_createVersion {previous : Option (FileRecord H)}
    (hprevious : ∀ r ∈ previous, r ∈ known) (path : Path) {n : Node H}
    (h : ScanInv others past known n) :
    Wp (createVersion (previous.map FileRecord.versionId) path)
      (fun version n' => ScanInv others past known n' ∧
        n'.db.lineage.find version.1 = some (previous.map FileRecord.versionId) ∧
        ⟨version.1, previous.map FileRecord.versionId, path, n'.config.deviceId, version.2⟩
          ∈ n'.created others ∧ version.2 ≤ n'.db.logicalClock)
      (fun _ => ScanInv others past known) n := by
  rw [createVersion, wp_bind]
  refine wp_dbGet h (fun _ _ => h.spend) fun clock db hdb => ?_
  obtain ⟨hclock, rfl⟩ := Database.advanceLogicalClock_eq_ok hdb
  have hlt : n.db.logicalClock < clock := by omega
  have h1 := (h.spend.clock hlt.le).uuid
  rw [wp_bind, wp_newUuidV4, wp_bind, wp_state, wp_bind]
  refine wp_dbDo h1 (fun _ _ => h1.spend) fun db hdb => ?_
  obtain ⟨-, lineage, rfl, hfind⟩ := Database.recordCreation_eq_ok hdb
  have h2 := h.create hlt hprevious path hfind
  refine ⟨{ h2 with }, (hfind _).trans (if_pos rfl), ?_, le_rfl⟩
  simp only [created, List.mem_append, List.mem_singleton]
  exact .inl (.inr rfl)

/-- A record stored under a version just created. -/
theorem wp_upsertCreated {n : Node H} {record : FileRecord H} {parent : Option VersionId}
    (h : ScanInv others past known n) (hrow : n.db.lineage.find record.versionId = some parent)
    (hmem : recordCreationOf record parent ∈ n.created others)
    (hclock : record.logicalClock ≤ n.db.logicalClock) (htask : record.taskId = n.config.taskId) :
    Wp (dbDo fun db => db.upsertFileRecord record) (fun _ => ScanInv others past known)
      (fun _ => ScanInv others past known) n := by
  refine wp_dbDo h (fun _ _ => h.spend) fun db hdb => ?_
  obtain ⟨hvalid, rfl⟩ := Database.upsertFileRecord_eq_ok hdb
  exact { h.upsert hrow hmem hclock htask hvalid with }

theorem scanInv_recordChange {previous : Option (FileRecord H)}
    (hprevious : ∀ r ∈ previous, r ∈ known) (entry : SnapshotEntry H) :
    Within (Keeps (ScanInv others past known)) (recordChange previous entry) := by
  refine keeps_of_wp fun n h => ?_
  rw [recordChange, wp_bind]
  refine wp_mono (wp_createVersion hprevious _ h) (fun version n' h' => ?_) fun _ _ h' => h'
  obtain ⟨hinv, hrow, hmem, hclock⟩ := h'
  rw [wp_bind, wp_state]
  exact wp_upsertCreated hinv hrow hmem hclock rfl

theorem scanInv_recordDeletion {record : FileRecord H} (hrecord : record ∈ known) :
    Within (Keeps (ScanInv others past known)) (recordDeletion record) := by
  refine keeps_of_wp fun n h => ?_
  rw [recordDeletion, wp_bind]
  have hprevious : ∀ r ∈ some record, r ∈ known := fun r hr => Option.mem_some_iff.mp hr ▸ hrecord
  refine wp_mono (wp_createVersion hprevious _ h) (fun version n' h' => ?_) fun _ _ h' => h'
  obtain ⟨hinv, hrow, hmem, hclock⟩ := h'
  rw [wp_bind, wp_state]
  exact wp_upsertCreated hinv hrow hmem hclock rfl

variable [ContentHash H]

theorem scanInv_refreshEntries (remaining : List (FileRecord H))
    (hremaining : ∀ r ∈ remaining, r ∈ known) (snapshot : List (SnapshotEntry H)) :
    Within (Keeps (ScanInv others past known)) (refreshEntries remaining snapshot) := by
  induction snapshot generalizing remaining with
  | nil => exact within_pure _
  | cons entry snapshot ih =>
    have hsub : ∀ r ∈ remaining.dropWhile fun record => record.relativePath < entry.relativePath,
        r ∈ known := fun r hr => hremaining r ((List.dropWhile_sublist _).subset hr)
    refine within_bind (within_when fun _ => scanInv_recordChange ?_ _) fun _ => ih _ hsub
    intro r hr
    exact hsub r (List.mem_of_mem_head? (Option.filter_eq_some_iff.mp hr).1)

theorem scanInv_refreshDeletions (snapshot : List (SnapshotEntry H))
    (remaining : List (FileRecord H)) (hremaining : ∀ r ∈ remaining, r ∈ known) :
    Within (Keeps (ScanInv others past known)) (refreshDeletions snapshot remaining) := by
  induction remaining generalizing snapshot with
  | nil => exact within_pure _
  | cons record remaining ih =>
    refine within_bind (within_when fun _ => scanInv_recordDeletion ?_) fun _ => ?_
    · exact hremaining record List.mem_cons_self
    · exact ih _ fun r hr => hremaining r (List.mem_cons_of_mem _ hr)

/-- The entries of a manifest describe stored records and their rows. -/
theorem mem_manifestEntries {db : Database H} {rules : IgnoreRules} {records : List (FileRecord H)}
    {entries : List (VersionedManifestEntry H)}
    (h : manifestEntries db rules records = .ok entries) {e : VersionedManifestEntry H}
    (he : e ∈ entries) : ∃ r ∈ records, manifestEntry db r = .ok e := by
  induction records generalizing entries with
  | nil =>
    cases h
    cases he
  | cons r records ih =>
    obtain ⟨ignored, -, h⟩ := ok_of_bind h
    cases ignored with
    | true =>
      obtain ⟨r', hr', hrest⟩ := ih h he
      exact ⟨r', List.mem_cons_of_mem _ hr', hrest⟩
    | false =>
      obtain ⟨entry, hentry, h⟩ := ok_of_bind h
      obtain ⟨rest, hrest, h⟩ := ok_of_bind h
      cases h
      rcases List.mem_cons.mp he with rfl | he
      · exact ⟨r, List.mem_cons_self, hentry⟩
      · obtain ⟨r', hr', hrest'⟩ := ih hrest he
        exact ⟨r', List.mem_cons_of_mem _ hr', hrest'⟩

theorem manifestEntry_eq_ok {db : Database H} {r : FileRecord H} {e : VersionedManifestEntry H}
    (h : manifestEntry db r = .ok e) :
    ∃ parent, db.lineage.find r.versionId = some parent ∧
      (parent ≠ some [] → creationOf e = recordCreationOf r parent) := by
  rw [manifestEntry] at h
  split at h
  · cases h
  · rename_i parent hrow
    refine ⟨parent, hrow, fun hne => ?_⟩
    split at h
    · cases h
    · cases h
      cases parent with
      | none => rfl
      | some u =>
        have hu : u ≠ [] := fun hu => hne (hu ▸ rfl)
        simp [creationOf, recordCreationOf, entryParent, entryOf, hu]

/-- A manifest repeats creations. -/
theorem nodeInv_sendManifest : Within (Keeps (NodeInv others past)) (sendManifest (H := H)) := by
  refine keeps_of_wp fun n h => ?_
  rw [sendManifest, wp_bind, wp_state]
  refine wp_ite (fun _ => h) fun _ => ?_
  have hrevision : NodeInv others past { n with manifestRevision := n.manifestRevision + 1 } :=
    { h with }
  rw [wp_bind, wp_update, wp_bind]
  refine wp_check (fun _ _ => hrevision) fun rules _ => ?_
  rw [wp_bind]
  refine wp_check (fun _ _ => hrevision) fun entries hentries => ?_
  rw [wp_bind]
  refine wp_check (fun _ _ => hrevision) fun _ _ => ?_
  rw [wp_bind, wp_send, wp_update]
  refine { hrevision with sent := fun m hm e he => ?_ }
  rcases List.mem_append.mp hm with hm | hm
  · exact h.sent m hm e he
  · obtain rfl := Frame.versionManifest.inj (List.mem_singleton.mp hm)
    obtain ⟨r, hr, hentry⟩ := mem_manifestEntries hentries he
    obtain ⟨p, hp⟩ := Database.mem_listFileRecords.mp hr
    obtain ⟨parent, hrow, hcreation⟩ := manifestEntry_eq_ok hentry
    obtain ⟨-, parent', hrow', hmem, -⟩ := h.records p r hp
    obtain rfl : parent = parent' := Option.some.inj (hrow.symm.trans hrow')
    rw [hcreation ?_]
    · exact hmem
    · rintro rfl
      obtain ⟨c, hc, hv, -⟩ := h.history.parents _ hmem [] rfl
      exact h.history.nonempty c hc hv

theorem scanInv_start {n : Node H} (h : NodeInv others past n) :
    ScanInv others past n.db.listFileRecords n := by
  refine ⟨h, fun r hr => ?_, fun r hr => ?_⟩
  · obtain ⟨p, hp⟩ := Database.mem_listFileRecords.mp hr
    exact (h.own p r hp).1
  · obtain ⟨p, hp⟩ := Database.mem_listFileRecords.mp hr
    exact (h.records p r hp).2

theorem nodeInv_refreshLocal : Within (Keeps (NodeInv others past)) (refreshLocal (H := H)) := by
  refine keeps_of_wp fun n h => ?_
  rw [refreshLocal, wp_bind, wp_state]
  refine wp_ite (fun _ => h) fun _ => ?_
  rw [wp_bind]
  refine wp_check (fun _ _ => h) fun hash _ => wp_ite (fun _ => { h with }) fun _ => ?_
  rw [wp_bind]
  refine wp_check (fun _ _ => h) fun snapshot _ => ?_
  have hloops : Within (Keeps (ScanInv others past n.db.listFileRecords)) (do
      refreshEntries n.db.listFileRecords snapshot
      refreshDeletions snapshot n.db.listFileRecords) :=
    within_bind (scanInv_refreshEntries _ (fun _ hr => hr) _) fun _ =>
      scanInv_refreshDeletions _ _ fun _ hr => hr
  have hscan := wp_of (hloops n (scanInv_start h))
  rw [wp_bind] at hscan ⊢
  refine wp_mono hscan (fun _ n' hn' => ?_) fun _ _ h' => h'.toNodeInv
  rw [wp_bind]
  refine wp_mono hn' (fun _ n'' hn'' => ?_) fun _ _ h' => h'.toNodeInv
  rw [wp_bind, wp_update]
  have hsources : NodeInv others past { n'' with sourceFiles := sourceFilesOf snapshot } :=
    { hn''.toNodeInv with }
  exact wp_when (fun _ => wp_of (nodeInv_sendManifest _ hsources)) fun _ => hsources

section Reconcile

variable {n : Node H}

theorem scanInv_recordNewVersion {db db' : Database H} {used : Nat} {record : FileRecord H}
    {previous : Option (FileRecord H)} (hprevious : ∀ r ∈ previous, r ∈ known)
    (h : ScanInv others past known { n with db := db, uuidsUsed := used })
    (hversion : record.versionId = n.uuid used)
    (horigin : record.originDeviceId = n.config.deviceId)
    (htask : record.taskId = n.config.taskId)
    (hdb : recordNewVersion db (previous.map FileRecord.versionId) record = .ok db') :
    ScanInv others past known { n with db := db', uuidsUsed := used + 1 } := by
  obtain ⟨taskId, path, kind, size, mtimeNs, hash, version, origin, _, deletedAt⟩ := record
  obtain rfl : version = n.uuid used := hversion
  obtain rfl : origin = n.config.deviceId := horigin
  obtain ⟨⟨clock, db1⟩, hadvance, hdb⟩ := ok_of_bind hdb
  obtain ⟨db2, hcreate, hdb⟩ := ok_of_bind hdb
  obtain ⟨hclock, rfl⟩ := Database.advanceLogicalClock_eq_ok hadvance
  obtain ⟨-, lineage, rfl, hfind⟩ := Database.recordCreation_eq_ok hcreate
  obtain ⟨hvalid, rfl⟩ := Database.upsertFileRecord_eq_ok hdb
  have hlt : db.logicalClock < clock := by omega
  have hcreated := h.create hlt hprevious path hfind
  refine hcreated.upsert (r := ⟨taskId, path, kind, size, mtimeNs, hash, n.uuid used,
    n.config.deviceId, clock, deletedAt⟩) ((hfind _).trans (if_pos rfl)) ?_ (Nat.le_refl clock)
    htask hvalid
  simp only [created, List.mem_append, List.mem_singleton]
  exact .inl (.inr rfl)

variable {previous : Path → Option (FileRecord H)}

/-- The first loop of the transaction. -/
theorem scanInv_reconcileUpserts
    (hprevious : ∀ p r, previous p = some r → r ∈ known)
    (hknown : ∀ r ∈ known, previous r.relativePath = some r) {used used' : Nat}
    {upserts : List (FileRecord H)}
    (hdrawn : Drawn n.uuid n.config.taskId n.config.deviceId known used upserts used')
      {db db' : Database H}
    (h : ScanInv others past known { n with db := db, uuidsUsed := used })
    (hdb : reconcileUpserts true previous db upserts = .ok db') :
    ScanInv others past known { n with db := db', uuidsUsed := used' } := by
  induction hdrawn generalizing db with
  | nil used =>
    cases hdb
    exact h
  | touched size mtimeNs hold hrest ih =>
    rename_i old rest
    obtain ⟨db1, hstep, hdb⟩ := ok_of_bind hdb
    refine ih ?_ hdb
    have hsame : (previous old.relativePath).map FileRecord.versionId = some old.versionId := by
      rw [hknown old hold, Option.map_some]
    rw [reconcileUpsert, if_neg (by simp [hsame])] at hstep
    obtain ⟨hvalid, rfl⟩ := Database.upsertFileRecord_eq_ok hstep
    obtain ⟨parent, hrow, hmem, hle⟩ := h.known old hold
    exact h.upsert (r := { old with size := size, mtimeNs := mtimeNs }) hrow hmem hle
      (h.ownKnown old hold) hvalid
  | fresh hversion horigin htask hrest ih =>
    rename_i r rest
    obtain ⟨db1, hstep, hdb⟩ := ok_of_bind hdb
    refine ih ?_ hdb
    have hnew : (previous r.relativePath).map FileRecord.versionId ≠ some r.versionId := by
      intro hsame
      obtain ⟨old, hold, hv⟩ := Option.map_eq_some_iff.mp hsame
      obtain ⟨parent, -, hmem, -⟩ := h.known old (hprevious _ _ hold)
      exact h.versionId_ne hmem (hv.trans hversion)
    rw [reconcileUpsert, if_pos ⟨rfl, hnew⟩] at hstep
    exact scanInv_recordNewVersion (fun old hold => hprevious _ _ hold) h hversion horigin htask
      hstep

/-- The second loop of the transaction. -/
theorem scanInv_reconcileDeletes (hprevious : ∀ p r, previous p = some r → r ∈ known)
    {config : ReconcileConfig} (horigin : config.originDeviceId = n.config.deviceId)
    (htask : config.taskId = n.config.taskId)
    {paths : List Path} {used used' : Nat} {db db' : Database H}
    (h : ScanInv others past known { n with db := db, uuidsUsed := used })
    (hdb : reconcileDeletes true config previous n.uuid used db paths = .ok (db', used')) :
    ScanInv others past known { n with db := db', uuidsUsed := used' } := by
  induction paths generalizing used db with
  | nil =>
    cases hdb
    exact h
  | cons path paths ih =>
    obtain ⟨db1, hstep, hdb⟩ := ok_of_bind hdb
    refine ih ?_ hdb
    rw [reconcileDelete, if_pos rfl] at hstep
    exact scanInv_recordNewVersion (fun old hold => hprevious _ _ hold) h rfl horigin htask hstep

/-- `SnapshotReconciler::Apply` extends the history as a scan of the node does. -/
theorem nodeInv_reconcile {snapshot : List (SnapshotEntry H)} {nowMs : Int} {db : Database H}
    {result : ReconcileResult} {used : Nat} (h : NodeInv others past n)
    (hdb : reconcile true n.db snapshot ⟨n.config.taskId, n.config.deviceId, 0, nowMs⟩ n.uuid
      n.uuidsUsed = .ok ((result, used), db)) :
    NodeInv others past { n with db := db, uuidsUsed := used } := by
  have hprevious : ∀ p r, n.db.records.find p = some r → r ∈ n.db.listFileRecords :=
    fun p r hp => Database.mem_listFileRecords.mpr ⟨p, hp⟩
  have hknown : ∀ r ∈ n.db.listFileRecords, n.db.records.find r.relativePath = some r := by
    intro r hr
    obtain ⟨p, hp⟩ := Database.mem_listFileRecords.mp hr
    rw [(h.records p r hp).1, hp]
  rw [reconcile] at hdb
  split at hdb
  · cases hdb
  · split at hdb
    · cases hdb
    · obtain ⟨diff, -, hdb⟩ := ok_of_bind hdb
      obtain ⟨db1, hupserts, hdb⟩ := ok_of_bind hdb
      obtain ⟨⟨db2, used2⟩, hdeletes, hdb⟩ := ok_of_bind hdb
      cases hdb
      have hdrawn := drawn_upsertsOf ⟨n.config.taskId, n.config.deviceId, 0, nowMs⟩ n.uuid snapshot
        (fun r (hr : r ∈ n.db.listFileRecords) => hr) n.uuidsUsed diff.createdOrChanged
      have h1 := scanInv_reconcileUpserts hprevious hknown hdrawn (scanInv_start h) hupserts
      exact (scanInv_reconcileDeletes hprevious rfl rfl h1 hdeletes).toNodeInv

theorem nodeInv_performScan : Within (Keeps (NodeInv others past)) (performScan (H := H)) := by
  refine keeps_of_wp fun n h => ?_
  rw [performScan, wp_bind]
  refine wp_check (fun _ _ => h) fun hash _ => ?_
  rw [wp_bind]
  refine wp_check (fun _ _ => h) fun snapshot _ => ?_
  rw [wp_bind, wp_state]
  refine wp_ite (fun _ => h) fun _ => wp_ite (fun _ => h) fun _ => ?_
  rw [wp_bind]
  refine wp_dbGet h (fun _ _ => h.spend) fun r db hdb => ?_
  exact { nodeInv_reconcile h hdb with }

end Reconcile

end Scan

/-! ## Remote changes

Everything that an entry can lead to is a copy: its row, its clock, its record, sometimes at another
path.  So an entry that repeats a creation cannot do harm, whatever is decided about it. -/

/-- The invariant while an entry is applied: its row and its clock have been recorded. -/
structure EntryInv (others past : List Creation) (entry : VersionedManifestEntry H)
    (n : Node H) : Prop extends NodeInv others past n where
  row : n.db.lineage.find entry.versionId = some (entryParent entry)
  clock : entry.logicalClock ≤ n.db.logicalClock

section Remote

variable {others past : List Creation} {entry : VersionedManifestEntry H}

theorem toRecord_eq_ok {taskId : Bytes} {record : FileRecord H}
    (h : toRecord taskId entry = .ok record) :
    record.taskId = taskId ∧ record.relativePath = entry.relativePath ∧
      record.kind = entry.kind ∧ record.size = entry.size ∧
      record.versionId = entry.versionId ∧ record.originDeviceId = entry.originDeviceId ∧
      record.logicalClock = entry.logicalClock ∧
      record.contentHash = (if entry.kind = .file then entry.contentHash else none) ∧
      record.deletedAtMs = entry.deletedAtMs.map fun t => (t : Int) := by
  obtain ⟨hash, hhash, h⟩ := ok_of_bind h
  split at h
  · cases h
  · cases h
    refine ⟨rfl, rfl, rfl, rfl, rfl, rfl, rfl, ?_, rfl⟩
    rw [entryHash] at hhash
    split at hhash
    · rename_i hkind
      rw [decodeHash] at hhash
      cases hc : entry.contentHash with
      | none => rw [hc] at hhash; cases hhash
      | some c =>
        rw [hc] at hhash
        cases hhash
        simp [hkind]
    · rename_i hkind
      cases hhash
      simp [hkind]

/-- Carrying out the decision on an entry of the history copies from it. -/
theorem entryMoves_entryInv (hentry : creationOf entry ∈ past) :
    EntryMoves (Keeps (EntryInv others past entry)) entry where
  spend _ h := { h with }
  uuid _ h := ⟨h.toNodeInv.uuid, h.row, h.clock⟩
  transferId _ h := { h with }
  conflict _ _ h := { h with }
  transfers _ _ h := { h with }
  tree _ _ _ h := { h with }
  sources _ _ h := { h with }
  uploads _ _ h := { h with }
  downloads _ _ hl h := ⟨h.toNodeInv.sessions hl, h.row, h.clock⟩
  preserved _ _ h := { h with }
  send _ _ hf h := ⟨h.toNodeInv.transfer hf, h.row, h.clock⟩
  upsert n record hrecord hvalid h := by
    obtain ⟨htask, hpath, -, -, hversion, horigin, hclock, -⟩ := toRecord_eq_ok hrecord
    have hcreation : recordCreationOf record (entryParent entry) = creationOf entry := by
      rw [recordCreationOf, creationOf, hpath, hversion, horigin, hclock]
    refine ⟨h.toNodeInv.upsert (hversion ▸ h.row) ?_ (hclock ▸ h.clock) htask hvalid, h.row,
      h.clock⟩
    rw [hcreation]
    exact h.grows _ hentry
  begin n d hd _ h := by
    refine { h with downloads := fun d' hd' => ?_ }
    rcases List.mem_append.mp hd' with hd' | hd'
    · exact h.downloads d' hd'
    · rw [List.mem_singleton.mp hd', hd]
      exact ⟨h.grows _ hentry, h.row, h.clock⟩

/-- Observing an entry of the history. -/
theorem wp_observeEntry {n : Node H} {remote : FileRecord H} {taskId : Bytes}
    (hremote : toRecord taskId entry = .ok remote)
    (hentry : creationOf entry ∈ past) (h : NodeInv others past n) :
    Wp (observeEntry entry remote) (fun _ => EntryInv others past entry)
      (fun _ => NodeInv others past) n := by
  obtain ⟨-, -, -, -, hversion, -, hclock, -⟩ := toRecord_eq_ok hremote
  rw [observeEntry, wp_bind]
  refine wp_dbDo h (fun _ _ => h.spend) fun db hdb => ?_
  obtain ⟨-, -, hold, lineage, rfl, hfind⟩ := Database.recordVersionLineage_eq_ok hdb
  have hmem : ∃ c ∈ n.created others, c.versionId = remote.versionId ∧
      c.parentVersionId = entryParent entry :=
    ⟨creationOf entry, h.grows _ hentry, hversion.symm, rfl⟩
  have h1 : NodeInv others past { n.spend with db := { n.db with lineage := lineage } } :=
    { h.row hold hfind hmem with }
  rw [wp_bind]
  refine wp_dbGet h1 (fun _ _ => h1.spend) fun clock db hdb => ?_
  obtain ⟨hmax, rfl⟩ := Database.advanceLogicalClock_eq_ok hdb
  have hle : n.db.logicalClock ≤ clock := by
    rw [hmax]
    exact (Nat.le_max_left _ _).trans (Nat.le_succ _)
  have hge : entry.logicalClock ≤ clock := by
    rw [hmax, hclock]
    exact (Nat.le_max_right _ _).trans (Nat.le_succ _)
  rw [wp_update]
  refine ⟨{ h1.clock hle with observed := fun e he => ?_ }, ?_, hge⟩
  · rcases List.mem_append.mp he with he | he
    · exact (h.observed e he).trans hle
    · rw [List.mem_singleton.mp he]
      exact hge
  · exact (hfind _).trans (if_pos hversion.symm)

variable [ContentHash H]

/-- Applying an entry of the history. -/
theorem nodeInv_applyRemoteEntry (hentry : creationOf entry ∈ past) :
    Within (Keeps (NodeInv others past)) (applyRemoteEntry entry) := by
  refine keeps_of_wp fun n h => ?_
  rw [applyRemoteEntry, wp_bind, wp_state, wp_bind]
  refine wp_check (fun _ _ => h) fun remote hremote => ?_
  rw [wp_bind]
  refine wp_mono (wp_observeEntry hremote hentry h) (fun _ n' h' => ?_) fun _ _ h' => h'
  rw [wp_bind]
  refine wp_check (fun _ _ => h'.toNodeInv) fun loc _ => ?_
  rw [wp_bind]
  refine wp_check (fun _ _ => h'.toNodeInv) fun resolution _ => ?_
  have hact := (entryMoves_entryInv hentry).actOn remote loc resolution n' h'
  exact wp_mono (wp_of hact) (fun _ _ h => h.toNodeInv) fun _ _ h => h.toNodeInv

theorem nodeInv_applyManifest {manifest : VersionedManifest H}
    (hentries : ∀ e ∈ manifest.entries, creationOf e ∈ past) :
    Within (Keeps (NodeInv others past)) (applyManifest manifest) := by
  refine within_bind (within_check _) fun _ => ?_
  refine within_bind (within_update fun n h => { h with }) fun _ => ?_
  refine within_bind (within_check _) fun rules => within_bind (within_forM fun e he => ?_)
    fun _ => within_update fun n h => { h with }
  exact within_bind (within_check _) fun _ => within_when fun _ =>
    nodeInv_applyRemoteEntry (hentries e he)

theorem nodeInv_acceptChunk (chunk : Chunk H) :
    Within (Keeps (NodeInv others past)) (acceptChunk chunk) := by
  refine keeps_of_wp fun n h => ?_
  rw [acceptChunk, wp_bind, wp_state]
  cases hfind : n.downloads.find? (ownsChunk chunk) with
  | none => exact h
  | some download =>
    obtain ⟨hmem, hrow, hclock⟩ := h.downloads download (List.mem_of_find?_eq_some hfind)
    -- the entry need not be one of `past`, so the walk is made with all that is known now
    have hnow : NodeInv others (n.created others) n := { h with grows := fun _ hc => hc }
    have hdone := (entryMoves_entryInv hmem).acceptInto chunk rfl n
      ⟨hnow, hrow, hclock⟩
    have hback : ∀ n', EntryInv others (n.created others) download.entry n' →
        NodeInv others past n' := fun n' h' =>
      { h'.toNodeInv with grows := fun c hc => h'.grows c (h.grows c hc) }
    exact wp_mono (wp_of hdone) (fun _ => hback) fun _ => hback

/-- Sessions and part files do not matter to the invariant. -/
theorem transferMoves_nodeInv : TransferMoves (Keeps (NodeInv (H := H) others past)) where
  spend _ h := { h with }
  uuid _ h := h.uuid
  transferId _ h := { h with }
  conflict _ _ h := { h with }
  transfers _ _ h := { h with }
  tree _ _ _ h := { h with }
  sources _ _ h := { h with }
  uploads _ _ h := { h with }
  downloads _ _ hl h := h.sessions hl
  preserved _ _ h := { h with }
  send _ _ hf h := h.transfer hf

/-- Nor does the negotiation of the rule file. -/
theorem nodeInv_of_controlMove {n n' : Node H} (hmove : ControlMove n n') :
    Keeps (NodeInv others past) n n' := by
  intro h
  obtain ⟨frames, hout, hframes⟩ := hmove.sends
  have hd := hmove.data
  refine h.congr (congrArg DataView.config hd) (congrArg DataView.uuid hd) hmove.uuids
    (congrArg DataView.minted hd) (congrArg DataView.lineage hd) (congrArg DataView.records hd)
    (congrArg DataView.logicalClock hd).ge ?_ ?_ ?_
  · rw [show n'.downloads = n.downloads from congrArg DataView.downloads hd]
    exact fun d hd => ⟨d, hd, rfl⟩
  · intro m hm
    rw [hout] at hm
    rcases List.mem_append.mp hm with hm | hm
    · exact hm
    · exact (hframes _ hm).elim
  · rw [show n'.trace = n.trace from congrArg DataView.trace hd,
      show n'.db.logicalClock = n.db.logicalClock from congrArg DataView.logicalClock hd]
    exact h.observed

/-- A frame repeats creations. -/
def HonestFrame (cs : List Creation) (f : Frame H) : Prop :=
  ∀ m, f = .versionManifest m → ∀ e ∈ m.entries, creationOf e ∈ cs

theorem HonestFrame.mono {cs cs' : List Creation} {f : Frame H} (hf : HonestFrame cs f)
    (h : ∀ c ∈ cs, c ∈ cs') : HonestFrame cs' f :=
  fun m hm e he => h _ (hf m hm e he)

theorem nodeInv_receiveData {frame : Frame H} (hframe : HonestFrame past frame) :
    Within (Keeps (NodeInv others past)) (receiveData frame) := by
  cases frame with
  | versionManifest m =>
    exact within_bind (within_check _) fun _ => nodeInv_applyManifest (hframe m rfl)
  | fileRequest r => exact transferMoves_nodeInv.handleFileRequest r
  | chunk c => exact within_ite (fun _ => within_raise _) fun _ => nodeInv_acceptChunk c
  | cancel c => exact transferMoves_nodeInv.handleCancel c
  | hello h => exact within_raise _
  | policy t m => exact within_raise _
  | unexpected c => exact within_raise _
  | malformed e => exact within_raise _
  | undecodable e => exact within_raise _

/-- A frame that repeats creations may be received. -/
theorem nodeInv_receive (channel : Channel) {frame : Frame H} (hframe : HonestFrame past frame) :
    Within (Keeps (NodeInv others past)) (receive channel frame) :=
  within_receive (fun _ _ => nodeInv_of_controlMove) nodeInv_refreshLocal nodeInv_sendManifest
    channel frame (nodeInv_receiveData hframe) fun _ h => { h with }

/-- Everything but receiving a frame keeps the invariant unconditionally. -/
theorem nodeInv_call {n : Node H} (h : NodeInv others past n) (c : Call H) :
    NodeInv others past (n.call c) := by
  cases c with
  | start => exact within_start (fun _ _ => nodeInv_of_controlMove) nodeInv_refreshLocal n h
  | refreshLocal => exact nodeInv_refreshLocal n h
  | performScan => exact nodeInv_performScan n h
  | pump => exact transferMoves_nodeInv.pump (fun _ _ => nodeInv_of_controlMove) n h
  | propose expectedHash rules source =>
    exact nodeInv_of_controlMove (controlMove_proposeIgnorePolicy _ _ _ n) h
  | edit folder => exact { h with }
  | fault k => exact { h with }

/-- **Every step of a node keeps the invariant**, if the frame it receives repeats creations. -/
theorem nodeInv_perform {n : Node H} (h : NodeInv others past n) (e : Event H)
    (hframe : ∀ env channel frame, e = .receive env channel frame → HonestFrame past frame) :
    NodeInv others past (n.perform e) := by
  cases e with
  | call env c => exact nodeInv_call (n := { n with env := env }) { h with } c
  | receive env channel frame =>
    exact nodeInv_receive channel (hframe env channel frame rfl) { n with env := env } { h with }
  | restart => exact { h with downloads := nofun, sent := nofun }

end Remote

end Node

end VeritasSync
