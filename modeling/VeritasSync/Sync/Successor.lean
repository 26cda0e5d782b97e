import VeritasSync.Sync.Causality

/-!
# Revisions made on one side only

One peer, the editor, revises a path over and over while the other, the follower, does not.  Each
revision is a version on top of the previous one, so the versions form a chain; the follower holds
some version of that chain, and everything in flight carries one.

What the follower knows of the chain is another matter.  A manifest has the latest version and its
parent, so a manifest that never arrived leaves a hole in the follower's lineage table, and the walk
of `IsVersionAncestor` ends at the hole.  `resolve_revision_iff` says exactly when the next version
is recognised as a successor, and `resolve_skipped_revision` is a run in which it is not.

The claim that would be convenient, that a version on top of the follower's is always recognised, is
false, and one lost manifest is enough.  What is true is an equivalence, and its proof needs to know
everything that either node can hold for the path: the version in its record, those in its lineage,
those in downloads and in frames on their way.  All of them lie on the chain as long as only the
editor revises the path.
-/

set_option autoImplicit false
set_option linter.unusedSectionVars false

namespace VeritasSync

variable {H : Type}

namespace Node

open Exec

/-! ## The chain -/

/-- `x` lies on the chain from the version stored for `p` down to `v₀`. -/
def OnChain (p : Path) (v₀ : VersionId) (n : Node H) (x : VersionId) : Prop :=
  ∃ r, n.db.records.find p = some r ∧ Climb.Above n.db.parentOf r.versionId x ∧
    Climb.Above n.db.parentOf x v₀

/-- If the frame is a manifest, the version it has for `p` satisfies `K`. -/
def Carries (p : Path) (K : VersionId → Prop) (f : Frame H) : Prop :=
  ∀ m, f = .versionManifest m → ∀ e ∈ m.entries, e.relativePath = p → K e.versionId

theorem Carries.mono {p : Path} {K K' : VersionId → Prop} {f : Frame H} (h : Carries p K f)
    (hK : ∀ x, K x → K' x) : Carries p K' f := fun m hm e he hp => hK _ (h m hm e he hp)

theorem carries_of_isControl {p : Path} {K : VersionId → Prop} {f : Frame H} (h : IsControl f) :
    Carries p K f := by
  rintro m rfl
  exact h.elim

theorem carries_of_isTransfer {p : Path} {K : VersionId → Prop} {f : Frame H} (h : IsTransfer f) :
    Carries p K f := by
  rintro m rfl
  exact h.elim

section Chain

variable {p : Path} {v₀ : VersionId} {n n' : Node H}

theorem parentOf_mono
    (hlineage : ∀ v q, n.db.lineage.find v = some q → n'.db.lineage.find v = some q)
    {v u : VersionId} (h : n.db.parentOf v = some u) : n'.db.parentOf v = some u :=
  Database.parentOf_eq_some.mpr (hlineage _ _ (Database.parentOf_eq_some.mp h))

/-- The chain grows at its top. -/
theorem OnChain.mono {x : VersionId} (h : OnChain p v₀ n x)
    (hlineage : ∀ v q, n.db.lineage.find v = some q → n'.db.lineage.find v = some q)
    (hrecord : ∀ r, n.db.records.find p = some r → ∃ r', n'.db.records.find p = some r' ∧
      Climb.Above n'.db.parentOf r'.versionId r.versionId) : OnChain p v₀ n' x := by
  obtain ⟨r, hr, htop, hbottom⟩ := h
  obtain ⟨r', hr', habove⟩ := hrecord r hr
  have hup := fun v u => parentOf_mono (v := v) (u := u) hlineage
  exact ⟨r', hr', habove.trans (Climb.above_mono hup htop), Climb.above_mono hup hbottom⟩

/-- The version a manifest has for a path is the one stored for it. -/
theorem entry_of_describes [ContentHash H] {db : Database H} {m : VersionedManifest H}
    (h : Describes db m) {e : VersionedManifestEntry H} (he : e ∈ m.entries) :
    ∃ q r, db.records.find q = some r ∧ e.relativePath = r.relativePath ∧
      e.versionId = r.versionId := by
  obtain ⟨rules, hentries⟩ := h
  obtain ⟨r, hr, hentry⟩ := mem_manifestEntries hentries he
  obtain ⟨q, hq⟩ := Database.mem_listFileRecords.mp hr
  rw [manifestEntry] at hentry
  split at hentry
  · cases hentry
  · split at hentry
    · cases hentry
    · cases hentry
      exact ⟨q, r, hq, rfl, rfl⟩

theorem carries_of_describes [ContentHash H] {db : Database H} {m : VersionedManifest H}
    (hkeyed : db.Keyed) (h : Describes db m) {K : VersionId → Prop}
    (hK : ∀ r, db.records.find p = some r → K r.versionId) :
    Carries p K (Frame.versionManifest m) := by
  rintro _ ⟨⟩ e he hp
  obtain ⟨q, r, hr, hpath, hversion⟩ := entry_of_describes h he
  rw [hkeyed q r hr, hp] at hpath
  rw [hversion]
  exact hK r (hpath ▸ hr)

end Chain

/-! ## The editor

The editor is sent its own old versions by a follower that has not heard of the new ones.  It must
not fall back to one of them, and it does not: they are ancestors of what it has. -/

/-- The editor's side: its version descends from `v₀`, the versions `K` met before lie on its chain,
nothing it downloads is for `p`, and what it sends carries versions of the chain. -/
structure EditorInv (p : Path) (v₀ : VersionId) (K : VersionId → Prop) (n : Node H) : Prop where
  record : ∃ r, n.db.records.find p = some r ∧ Climb.Above n.db.parentOf r.versionId v₀
  chain : ∀ x, K x → OnChain p v₀ n x
  downloads : ∀ d ∈ n.downloads, d.entry.relativePath ≠ p
  sent : ∀ f ∈ n.out, Carries p (OnChain p v₀ n) f

section Editor

variable {p : Path} {v₀ : VersionId} {K : VersionId → Prop} {n n' : Node H}

/-- The rule for every step of the editor: the lineage grows, and a new version for `p` is on top of
the old one. -/
theorem EditorInv.move (h : EditorInv p v₀ K n)
    (hlineage : ∀ v q, n.db.lineage.find v = some q → n'.db.lineage.find v = some q)
    (hrecord : ∀ r, n.db.records.find p = some r → ∃ r', n'.db.records.find p = some r' ∧
      Climb.Above n'.db.parentOf r'.versionId r.versionId)
    (hdownloads : ∀ d ∈ n'.downloads, d.entry.relativePath ≠ p)
    (hsent : ∀ f ∈ n'.out, f ∈ n.out ∨ Carries p (OnChain p v₀ n') f) :
    EditorInv p v₀ K n' := by
  refine ⟨?_, fun x hx => (h.chain x hx).mono hlineage hrecord, hdownloads, fun f hf => ?_⟩
  · obtain ⟨r, hr, hbottom⟩ := h.record
    obtain ⟨r', hr', habove⟩ := hrecord r hr
    exact ⟨r', hr', habove.trans (Climb.above_mono (fun _ _ => parentOf_mono hlineage) hbottom)⟩
  · rcases hsent f hf with hf | hf
    · exact (h.sent f hf).mono fun x hx => hx.mono hlineage hrecord
    · exact hf

/-- A step that leaves the version stored for `p` alone. -/
theorem EditorInv.same (h : EditorInv p v₀ K n)
    (hlineage : ∀ v q, n.db.lineage.find v = some q → n'.db.lineage.find v = some q)
    (hrecord : n'.db.records.find p = n.db.records.find p)
    (hdownloads : ∀ d ∈ n'.downloads, d.entry.relativePath ≠ p)
    (hsent : ∀ f ∈ n'.out, f ∈ n.out ∨ Carries p (OnChain p v₀ n') f) : EditorInv p v₀ K n' :=
  h.move hlineage (fun r hr => ⟨r, hrecord.trans hr, .refl⟩) hdownloads hsent

theorem editorInv_of_controlMove (hmove : ControlMove n n') :
    Keeps (EditorInv p v₀ K) n n' := by
  intro h
  obtain ⟨frames, hout, hframes⟩ := hmove.sends
  have hrecords : n'.db.records = n.db.records := congrArg DataView.records hmove.data
  have hlineage : n'.db.lineage = n.db.lineage := congrArg DataView.lineage hmove.data
  have hdownloads : n'.downloads = n.downloads := congrArg DataView.downloads hmove.data
  refine h.same (fun v q hv => hlineage ▸ hv) (by rw [hrecords]) (hdownloads ▸ h.downloads) ?_
  intro f hf
  rw [hout] at hf
  exact (List.mem_append.mp hf).imp_right fun hf => carries_of_isControl (hframes f hf)

/-- Transfers do not touch the path. -/
theorem transferMoves_editorInv :
    TransferMoves (Keeps (EditorInv (H := H) p v₀ K)) where
  spend _ h := { h with }
  uuid _ h := { h with }
  transferId _ h := { h with }
  conflict _ _ h := { h with }
  transfers _ _ h := { h with }
  tree _ _ _ h := { h with }
  sources _ _ h := { h with }
  uploads _ _ h := { h with }
  downloads n l hl h := by
    refine { h with downloads := fun d hd => ?_ }
    obtain ⟨d', hd', hgoal⟩ := hl d hd
    rw [hgoal.entry]
    exact h.downloads d' hd'
  preserved _ _ h := { h with }
  send n f hf h := by
    refine { h with sent := fun g hg => ?_ }
    rcases List.mem_append.mp hg with hg | hg
    · exact h.sent g hg
    · rw [List.mem_singleton.mp hg]
      exact carries_of_isTransfer hf

/-- Nor do entries of other paths. -/
theorem entryMoves_editorInv {entry : VersionedManifestEntry H} (hentry : entry.relativePath ≠ p) :
    EntryMoves (Keeps (EditorInv p v₀ K)) entry := by
  refine { transferMoves_editorInv with upsert := ?_, begin := ?_ }
  · intro n record hrecord _ h
    obtain ⟨-, hpath, -⟩ := toRecord_eq_ok hrecord
    refine h.same (fun _ _ hv => hv) ?_ h.downloads fun f hf => .inl hf
    exact OrdMap.find_insert_of_ne _ _ (hpath ▸ Ne.symm hentry)
  · intro n d hd _ h
    refine { h with downloads := fun d' hd' => ?_ }
    rcases List.mem_append.mp hd' with hd' | hd'
    · exact h.downloads d' hd'
    · rw [List.mem_singleton.mp hd', hd]
      exact hentry

theorem editorInv_observeEntry (entry : VersionedManifestEntry H) (remote : FileRecord H) :
    Within (Keeps (EditorInv p v₀ K)) (observeEntry entry remote) := by
  refine within_bind (within_dbDo (fun _ h => { h with }) fun n db hdb h => ?_) fun _ => ?_
  · obtain ⟨-, -, hold, lineage, rfl, hfind⟩ := Database.recordVersionLineage_eq_ok hdb
    refine h.same (fun v q hv => ?_) rfl h.downloads fun f hf => .inl hf
    show lineage.find v = some q
    rw [hfind]
    split
    · rename_i hvr
      rw [hold q (hvr ▸ hv)]
    · exact hv
  · refine within_bind (within_dbGet (fun _ h => { h with }) fun n clock db hdb h => ?_) fun _ => ?_
    · obtain ⟨-, -, rfl⟩ := advanceLogicalClock_le hdb
      exact { h with }
    · exact within_update fun n h => { h with }

variable [ContentHash H] {others past : List Creation}

/-- The editor keeps its version of `p`: whatever it is sent for `p` is an ancestor of it. -/
theorem editorInv_applyRemoteEntry {entry : VersionedManifestEntry H}
    (hentry : creationOf entry ∈ past) (hK : entry.relativePath = p → K entry.versionId) :
    Within (Keeps fun n => NodeInv others past n ∧ EditorInv p v₀ K n)
      (applyRemoteEntry entry) := by
  by_cases hp : entry.relativePath = p
  · refine keeps_of_wp fun n h => ?_
    rw [applyRemoteEntry, wp_bind, wp_state, wp_bind]
    refine wp_check (fun _ _ => h) fun remote hremote => ?_
    rw [wp_bind]
    refine wp_mono (wp_and (wp_observeEntry hremote hentry h.1)
      (wp_of (editorInv_observeEntry entry remote n h.2))) (fun _ n' h' => ?_) fun _ _ h' => h'
    obtain ⟨hentryInv, heditor⟩ := h'
    have hdone : NodeInv others past n' ∧ EditorInv p v₀ K n' := ⟨hentryInv.toNodeInv, heditor⟩
    rw [wp_bind]
    refine wp_check (fun _ _ => hdone) fun loc hloc => ?_
    rw [wp_bind]
    refine wp_check (fun _ _ => hdone) fun resolution hresolution => ?_
    obtain ⟨-, -, hloc⟩ := ok_of_bind hloc
    cases hloc
    obtain ⟨r, hr, habove, -⟩ := heditor.chain _ (hK hp)
    rw [hp, hr] at hresolution ⊢
    obtain ⟨-, -, -, -, hversion, -⟩ := toRecord_eq_ok hremote
    have hkeep := resolve_of_above hentryInv.toNodeInv.acyclic (hversion ▸ habove) hresolution
    unfold actOn
    rw [hkeep]
    exact hdone
  · refine within_and (nodeInv_applyRemoteEntry hentry) ?_
    exact within_bind within_state fun _ => within_bind (within_check _) fun remote =>
      within_bind (editorInv_observeEntry entry remote) fun _ => within_bind (within_check _)
        fun loc => within_bind (within_check _) fun resolution =>
          (entryMoves_editorInv hp).actOn remote loc resolution

/-- After a scan that found the version `u`, the version stored for `p` is `u` or on top of it. -/
def OnTop (p : Path) (u : VersionId) (db : Database H) : Prop :=
  ∃ r, db.records.find p = some r ∧ (r.versionId = u ∨ db.parentOf r.versionId = some u)

omit [ContentHash H] in
theorem scanKeeps_onTop {u : VersionId} {previous : Path → Option VersionId}
    (hprevious : previous p = some u) : ScanKeeps (H := H) (OnTop p u) previous where
  clock _ _ h := h
  create db c db' h _ hcreate := by
    obtain ⟨hlineage, heq⟩ := recordCreation_lineage hcreate
    obtain ⟨r, hr, hu⟩ := h
    refine ⟨r, by rw [heq]; exact hr, hu.imp_right fun hu => ?_⟩
    exact Database.parentOf_eq_some.mpr (hlineage _ _ (Database.parentOf_eq_some.mp hu))
  store db c db' record h hparent hcreate hversion hpath := by
    obtain ⟨hlineage, heq⟩ := recordCreation_lineage hcreate
    obtain ⟨-, lineage, rfl, hfind⟩ := Database.recordCreation_eq_ok hcreate
    by_cases hp : record.relativePath = p
    · refine ⟨record, by rw [hp]; exact OrdMap.find_insert_self _ _ _, .inr ?_⟩
      refine Database.parentOf_eq_some.mpr ?_
      show lineage.find record.versionId = _
      rw [hfind, if_pos hversion, hparent, ← hpath, hp, hprevious]
    · obtain ⟨r, hr, hu⟩ := h
      refine ⟨r, ?_, hu.imp_right fun hu => ?_⟩
      · exact (OrdMap.find_insert_of_ne _ _ (Ne.symm hp)).trans hr
      · exact Database.parentOf_eq_some.mpr (hlineage _ _ (Database.parentOf_eq_some.mp hu))
  touch db record h hrecord := by
    by_cases hp : record.relativePath = p
    · refine ⟨record, by rw [hp]; exact OrdMap.find_insert_self _ _ _, .inl ?_⟩
      rw [hp, hprevious] at hrecord
      exact (Option.some.inj hrecord).symm
    · obtain ⟨r, hr, hu⟩ := h
      exact ⟨r, (OrdMap.find_insert_of_ne _ _ (Ne.symm hp)).trans hr, hu⟩

/-- A scan of the editor puts its revision on top of the chain. -/
theorem editorInv_scan {n' : Node H} (h : EditorInv p v₀ K n) (hmove : LocalMove n n')
    (hkeyed : n'.db.Keyed) (hontop : ∀ u, versionsOf n.db p = some u → OnTop p u n'.db)
    (hsent : ∀ m, Frame.versionManifest m ∈ n'.out → Frame.versionManifest m ∈ n.out ∨
      Describes n'.db m) : EditorInv p v₀ K n' := by
  have hrecord : ∀ r, n.db.records.find p = some r → ∃ r', n'.db.records.find p = some r' ∧
      Climb.Above n'.db.parentOf r'.versionId r.versionId := by
    intro r hr
    obtain ⟨r', hr', hu⟩ := hontop r.versionId (by rw [versionsOf, hr, Option.map_some])
    refine ⟨r', hr', ?_⟩
    rcases hu with hu | hu
    · rw [hu]
      exact .refl
    · exact .single hu
  have hdownloads : n'.downloads = n.downloads := congrArg ScanView.downloads hmove.view
  refine h.move hmove.lineage hrecord (hdownloads ▸ h.downloads) fun f hf => ?_
  obtain ⟨ms, hout, -⟩ := hmove.sends
  rw [hout] at hf
  rcases List.mem_append.mp hf with hf' | hf'
  · exact .inl hf'
  obtain ⟨m, -, rfl⟩ := List.mem_map.mp hf'
  refine (hsent m (hout ▸ hf)).imp_right fun hm => carries_of_describes hkeyed hm fun r' hr' => ?_
  obtain ⟨r, hr, hbottom⟩ := h.record
  obtain ⟨r'', hr'', habove⟩ := hrecord r hr
  obtain rfl : r' = r'' := Option.some.inj (hr'.symm.trans hr'')
  refine ⟨r', hr', .refl, habove.trans ?_⟩
  exact Climb.above_mono (fun _ _ => parentOf_mono hmove.lineage) hbottom

/-- The editor's version exists, so a scan finds it. -/
theorem EditorInv.onTop (h : EditorInv p v₀ K n) {u : VersionId}
    (hu : versionsOf n.db p = some u) : OnTop p u n.db := by
  obtain ⟨r, hr, -⟩ := h.record
  rw [versionsOf, hr, Option.map_some] at hu
  exact ⟨r, hr, .inl (Option.some.inj hu)⟩

theorem editorInv_refreshLocal :
    Within (Keeps fun n => NodeInv others past n ∧ EditorInv p v₀ K n)
      (refreshLocal (H := H)) := by
  intro n ⟨hnode, h⟩
  have hnode' := nodeInv_refreshLocal n hnode
  refine ⟨hnode', editorInv_scan h (localMove_refreshLocal n) hnode'.keyed (fun u hu => ?_) ?_⟩
  · exact ((scanKeeps_onTop hu).refreshLocal hnode.keyed (h.onTop hu)).1
  · obtain ⟨r, hr, -⟩ := h.record
    have hu : versionsOf n.db p = some r.versionId := by rw [versionsOf, hr, Option.map_some]
    exact ((scanKeeps_onTop hu).refreshLocal hnode.keyed (h.onTop hu)).2

theorem editorInv_performScan :
    Within (Keeps fun n => NodeInv others past n ∧ EditorInv p v₀ K n)
      (performScan (H := H)) := by
  intro n ⟨hnode, h⟩
  have hnode' := nodeInv_performScan n hnode
  refine ⟨hnode', editorInv_scan h (localMove_performScan n) hnode'.keyed (fun u hu => ?_) ?_⟩
  · exact ((scanKeeps_onTop hu).performScan hnode.keyed (h.onTop hu)).1
  · obtain ⟨r, hr, -⟩ := h.record
    have hu : versionsOf n.db p = some r.versionId := by rw [versionsOf, hr, Option.map_some]
    have hout := ((scanKeeps_onTop hu).performScan hnode.keyed (h.onTop hu)).2
    exact fun m hm => .inl (hout ▸ hm)

theorem editorInv_sendManifest :
    Within (Keeps fun n => NodeInv others past n ∧ EditorInv p v₀ K n)
      (sendManifest (H := H)) := by
  intro n ⟨hnode, h⟩
  have hnode' := nodeInv_sendManifest n hnode
  obtain ⟨hdb, hsent⟩ := announces_sendManifest n
  refine ⟨hnode', editorInv_scan h (localMove_sendManifest n) hnode'.keyed (fun u hu => ?_) hsent⟩
  rw [hdb]
  exact h.onTop hu

theorem editorInv_receiveData {frame : Frame H} (hframe : HonestFrame past frame)
    (hK : Carries p K frame) :
    Within (Keeps fun n => NodeInv others past n ∧ EditorInv p v₀ K n) (receiveData frame) := by
  cases frame with
  | versionManifest m =>
    refine within_bind (within_check _) fun _ => within_bind (within_check _) fun _ => ?_
    refine within_bind (within_update fun n h => ⟨{ h.1 with }, { h.2 with }⟩) fun _ => ?_
    refine within_bind (within_check _) fun rules => within_bind (within_forM fun e he => ?_)
      fun _ => within_update fun n h => ⟨{ h.1 with }, { h.2 with }⟩
    exact within_bind (within_check _) fun _ => within_when fun _ =>
      editorInv_applyRemoteEntry (hframe m rfl e he) (hK m rfl e he)
  | fileRequest r =>
    exact within_and (transferMoves_nodeInv.handleFileRequest r)
      (transferMoves_editorInv.handleFileRequest r)
  | chunk c =>
    refine within_and (nodeInv_receiveData hframe)
      (within_ite (fun _ => within_raise _) fun _ => ?_)
    refine keeps_of_wp fun n h => ?_
    rw [acceptChunk, wp_bind, wp_state]
    cases hfind : n.downloads.find? (ownsChunk c) with
    | none => exact h
    | some download =>
      have hp := h.downloads download (List.mem_of_find?_eq_some hfind)
      exact wp_of ((entryMoves_editorInv hp).acceptInto c rfl n h)
  | cancel c =>
    exact within_and (transferMoves_nodeInv.handleCancel c)
      (transferMoves_editorInv.handleCancel c)
  | hello h => exact within_raise _
  | policy t m => exact within_raise _
  | unexpected c => exact within_raise _
  | malformed e => exact within_raise _
  | undecodable e => exact within_raise _

/-- **Every step of the editor keeps its invariant**, if what it receives carries versions of the
chain. -/
theorem editorInv_perform (hnode : NodeInv others past n) (h : EditorInv p v₀ K n) (e : Event H)
    (hframe : ∀ env channel frame, e = .receive env channel frame →
      HonestFrame past frame ∧ Carries p K frame) : EditorInv p v₀ K (n.perform e) := by
  have hcontrol : ∀ n n' : Node H, ControlMove n n' →
      Keeps (fun n => NodeInv others past n ∧ EditorInv p v₀ K n) n n' := fun n n' hmove h =>
    ⟨nodeInv_of_controlMove hmove h.1, editorInv_of_controlMove hmove h.2⟩
  cases e with
  | call env c =>
    have hstart : NodeInv others past { n with env := env } ∧
        EditorInv p v₀ K { n with env := env } := ⟨{ hnode with }, { h with }⟩
    cases c with
    | start => exact (within_start hcontrol editorInv_refreshLocal _ hstart).2
    | refreshLocal => exact (editorInv_refreshLocal _ hstart).2
    | performScan => exact (editorInv_performScan _ hstart).2
    | pump =>
      exact transferMoves_editorInv.pump (fun _ _ => editorInv_of_controlMove) _ hstart.2
    | propose expectedHash rules source =>
      exact editorInv_of_controlMove (controlMove_proposeIgnorePolicy _ _ _ _) hstart.2
    | edit folder => exact { h with }
    | fault k => exact { h with }
  | receive env channel frame =>
    obtain ⟨hhonest, hK⟩ := hframe env channel frame rfl
    refine (within_receive hcontrol editorInv_refreshLocal editorInv_sendManifest channel frame
      (editorInv_receiveData hhonest hK) (fun _ h => ⟨{ h.1 with }, { h.2 with }⟩)
      { n with env := env } ⟨{ hnode with }, { h with }⟩).2
  | restart => exact { h with downloads := nofun, sent := nofun }

end Editor

/-! ## The follower

The follower holds some version of the chain and does not revise the path itself.  A scan of the
follower must find the file as the record describes it; if it finds something else, the user has
revised the path there after all, and the case is not the one considered. -/

/-- The number of versions of `p` created on this device. -/
def revisions (p : Path) (db : Database H) : Nat :=
  (db.minted.filter fun c => c.relativePath = p).length

/-- The follower's side as long as it has not revised `p` more than `c` times: its version of `p`,
the downloads for `p` and what it sends are in `K`. -/
structure FollowerCore (p : Path) (K : VersionId → Prop) (n : Node H) : Prop where
  record : ∃ r, n.db.records.find p = some r ∧ K r.versionId
  downloads : ∀ d ∈ n.downloads, d.entry.relativePath = p → K d.entry.versionId
  sent : ∀ f ∈ n.out, Carries p K f

/-- The follower has revised `p` after all, or its core invariant holds. -/
def FollowerInv (p : Path) (K : VersionId → Prop) (c : Nat) (n : Node H) : Prop :=
  c ≤ revisions p n.db ∧ (c < revisions p n.db ∨ FollowerCore p K n)

section Follower

variable {p : Path} {K : VersionId → Prop} {c : Nat} {n n' : Node H}

/-- A step that creates no version. -/
theorem FollowerInv.of_core (h : FollowerInv p K c n) (hminted : n'.db.minted = n.db.minted)
    (hcore : FollowerCore p K n → FollowerCore p K n') : FollowerInv p K c n' := by
  rw [FollowerInv, revisions, hminted]
  exact ⟨h.1, h.2.imp_right hcore⟩

theorem followerInv_of_controlMove (hmove : ControlMove n n') :
    Keeps (FollowerInv p K c) n n' := by
  intro h
  refine h.of_core (congrArg DataView.minted hmove.data) fun hcore => ?_
  obtain ⟨frames, hout, hframes⟩ := hmove.sends
  have hrecords : n'.db.records = n.db.records := congrArg DataView.records hmove.data
  have hdownloads : n'.downloads = n.downloads := congrArg DataView.downloads hmove.data
  refine ⟨hrecords ▸ hcore.record, hdownloads ▸ hcore.downloads, fun f hf => ?_⟩
  rw [hout] at hf
  rcases List.mem_append.mp hf with hf | hf
  · exact hcore.sent f hf
  · exact carries_of_isControl (hframes f hf)

theorem transferMoves_followerInv : TransferMoves (Keeps (FollowerInv (H := H) p K c)) where
  spend _ h := h.of_core rfl fun h => { h with }
  uuid _ h := h.of_core rfl fun h => { h with }
  transferId _ h := h.of_core rfl fun h => { h with }
  conflict _ _ h := h.of_core rfl fun h => { h with }
  transfers _ _ h := h.of_core rfl fun h => { h with }
  tree _ _ _ h := h.of_core rfl fun h => { h with }
  sources _ _ h := h.of_core rfl fun h => { h with }
  uploads _ _ h := h.of_core rfl fun h => { h with }
  downloads n l hl h := by
    refine h.of_core rfl fun h => { h with downloads := fun d hd => ?_ }
    obtain ⟨d', hd', hgoal⟩ := hl d hd
    rw [hgoal.entry]
    exact h.downloads d' hd'
  preserved _ _ h := h.of_core rfl fun h => { h with }
  send n f hf h := by
    refine h.of_core rfl fun h => { h with sent := fun g hg => ?_ }
    rcases List.mem_append.mp hg with hg | hg
    · exact h.sent g hg
    · rw [List.mem_singleton.mp hg]
      exact carries_of_isTransfer hf

theorem entryMoves_followerInv {entry : VersionedManifestEntry H}
    (hentry : entry.relativePath = p → K entry.versionId) :
    EntryMoves (Keeps (FollowerInv p K c)) entry := by
  refine { transferMoves_followerInv with upsert := ?_, begin := ?_ }
  · intro n record hrecord _ h
    obtain ⟨-, hpath, -, -, hversion, -⟩ := toRecord_eq_ok hrecord
    refine h.of_core rfl fun h => { h with record := ?_ }
    by_cases hp : record.relativePath = p
    · refine ⟨record, by rw [hp]; exact OrdMap.find_insert_self _ _ _, ?_⟩
      rw [hversion]
      exact hentry (hpath.symm.trans hp)
    · obtain ⟨r, hr, hK⟩ := h.record
      exact ⟨r, (OrdMap.find_insert_of_ne _ _ (Ne.symm hp)).trans hr, hK⟩
  · intro n d hd _ h
    refine h.of_core rfl fun h => { h with downloads := fun d' hd' => ?_ }
    rcases List.mem_append.mp hd' with hd' | hd'
    · exact h.downloads d' hd'
    · rw [List.mem_singleton.mp hd', hd]
      exact hentry

theorem followerInv_observeEntry (entry : VersionedManifestEntry H) (remote : FileRecord H) :
    Within (Keeps (FollowerInv p K c)) (observeEntry entry remote) := by
  have hspend : ∀ n : Node H, Keeps (FollowerInv p K c) n n.spend :=
    fun n h => h.of_core rfl fun h => { h with }
  refine within_bind (within_dbDo hspend fun n db hdb h => ?_) fun _ => ?_
  · obtain ⟨-, -, -, lineage, rfl, -⟩ := Database.recordVersionLineage_eq_ok hdb
    exact h.of_core rfl fun h => { h with }
  · refine within_bind (within_dbGet hspend fun n clock db hdb h => ?_) fun _ => ?_
    · obtain ⟨-, -, rfl⟩ := advanceLogicalClock_le hdb
      exact h.of_core rfl fun h => { h with }
    · exact within_update fun n h => h.of_core rfl fun h => { h with }

/-- What a scan of the follower keeps: another revision of `p`, or a version in `K`. -/
def Unrevised (p : Path) (K : VersionId → Prop) (c : Nat) (db : Database H) : Prop :=
  c ≤ revisions p db ∧ (c < revisions p db ∨ ∃ r, db.records.find p = some r ∧ K r.versionId)

theorem revisions_recordCreation {db db' : Database H} {creation : Creation}
    (h : db.recordCreation creation = .ok db') :
    revisions p db' = revisions p db + if creation.relativePath = p then 1 else 0 := by
  obtain ⟨-, lineage, rfl, -⟩ := Database.recordCreation_eq_ok h
  rw [revisions, revisions, List.filter_append, List.length_append]
  by_cases hp : creation.relativePath = p
  · simp [hp]
  · simp [hp]

theorem scanKeeps_unrevised {previous : Path → Option VersionId}
    (hprevious : ∀ u, previous p = some u → K u) :
    ScanKeeps (H := H) (Unrevised p K c) previous where
  clock _ _ h := h
  create db creation db' h _ hcreate := by
    have hcount := revisions_recordCreation (p := p) hcreate
    obtain ⟨-, lineage, rfl, -⟩ := Database.recordCreation_eq_ok hcreate
    obtain ⟨hle, hrest⟩ := h
    refine ⟨by omega, ?_⟩
    rcases hrest with hlt | hrecord
    · exact .inl (by omega)
    · exact .inr hrecord
  store db creation db' record h _ hcreate _ hpath := by
    have hcount := revisions_recordCreation (p := p) hcreate
    obtain ⟨-, lineage, rfl, -⟩ := Database.recordCreation_eq_ok hcreate
    obtain ⟨hle, hrest⟩ := h
    rw [← hpath] at hcount
    refine ⟨hle.trans (hcount.ge.trans' (Nat.le_add_right _ _)), ?_⟩
    by_cases hp : record.relativePath = p
    · rw [if_pos hp] at hcount
      exact .inl (hcount.ge.trans' (Nat.succ_le_succ hle))
    · rw [if_neg hp] at hcount
      refine hrest.imp (fun hlt => hcount.ge.trans' hlt) fun ⟨r, hr, hK⟩ => ⟨r, ?_, hK⟩
      exact (OrdMap.find_insert_of_ne _ _ (Ne.symm hp)).trans hr
  touch db record h hrecord := by
    refine ⟨h.1, h.2.imp_right fun ⟨r, hr, hK⟩ => ?_⟩
    by_cases hp : record.relativePath = p
    · refine ⟨record, by rw [hp]; exact OrdMap.find_insert_self _ _ _, ?_⟩
      exact hprevious _ (hp ▸ hrecord)
    · exact ⟨r, (OrdMap.find_insert_of_ne _ _ (Ne.symm hp)).trans hr, hK⟩

variable [ContentHash H] {others past : List Creation}

/-- A scan of the follower that does not revise `p`. -/
theorem followerInv_scan (h : FollowerInv p K c n) (hmove : LocalMove n n')
    (hkeyed : n'.db.Keyed)
    (hunrevised : (∃ r, n.db.records.find p = some r ∧ K r.versionId) → Unrevised p K c n'.db)
    (hsent : ∀ m, Frame.versionManifest m ∈ n'.out → Frame.versionManifest m ∈ n.out ∨
      Describes n'.db m) : FollowerInv p K c n' := by
  obtain ⟨hle, hcore⟩ := h
  have hgrow : revisions p n.db ≤ revisions p n'.db :=
    (List.Sublist.filter _ hmove.minted.sublist).length_le
  refine ⟨hle.trans hgrow, ?_⟩
  rcases hcore with hlt | hcore
  · exact .inl (hlt.trans_le hgrow)
  obtain ⟨-, hlt | hrecord⟩ := hunrevised hcore.record
  · exact .inl hlt
  refine .inr ⟨hrecord, ?_, fun f hf => ?_⟩
  · rw [show n'.downloads = n.downloads from congrArg ScanView.downloads hmove.view]
    exact hcore.downloads
  · obtain ⟨ms, hout, -⟩ := hmove.sends
    rw [hout] at hf
    rcases List.mem_append.mp hf with hf' | hf'
    · exact hcore.sent f hf'
    obtain ⟨m, -, rfl⟩ := List.mem_map.mp hf'
    rcases hsent m (hout ▸ hf) with hm | hm
    · exact hcore.sent _ hm
    · refine carries_of_describes hkeyed hm fun r' hr' => ?_
      obtain ⟨r, hr, hK⟩ := hrecord
      obtain rfl : r' = r := Option.some.inj (hr'.symm.trans hr)
      exact hK

/-- The scan of a follower that holds a version in `K`. -/
theorem scanKeeps_follower {n : Node H}
    (hrecord : ∃ r, n.db.records.find p = some r ∧ K r.versionId) :
    ScanKeeps (H := H) (Unrevised p K c) (versionsOf n.db) := by
  refine scanKeeps_unrevised fun u hu => ?_
  obtain ⟨r, hr, hK⟩ := hrecord
  rw [versionsOf, hr, Option.map_some] at hu
  exact Option.some.inj hu ▸ hK

theorem followerInv_refreshLocal :
    Within (Keeps fun n => NodeInv others past n ∧ FollowerInv p K c n)
      (refreshLocal (H := H)) := by
  intro n ⟨hnode, h⟩
  have hnode' := nodeInv_refreshLocal n hnode
  refine ⟨hnode', followerInv_scan h (localMove_refreshLocal n) hnode'.keyed (fun hrecord => ?_)
    fun m hm => describes_of_refreshLocal hnode.keyed hm⟩
  exact ((scanKeeps_follower hrecord).refreshLocal hnode.keyed ⟨h.1, .inr hrecord⟩).1

theorem followerInv_performScan :
    Within (Keeps fun n => NodeInv others past n ∧ FollowerInv p K c n)
      (performScan (H := H)) := by
  intro n ⟨hnode, h⟩
  have hnode' := nodeInv_performScan n hnode
  refine ⟨hnode', followerInv_scan h (localMove_performScan n) hnode'.keyed (fun hrecord => ?_)
    fun m hm => .inl (performScan_out hnode.keyed ▸ hm)⟩
  exact ((scanKeeps_follower hrecord).performScan hnode.keyed ⟨h.1, .inr hrecord⟩).1

theorem followerInv_sendManifest :
    Within (Keeps fun n => NodeInv others past n ∧ FollowerInv p K c n)
      (sendManifest (H := H)) := by
  intro n ⟨hnode, h⟩
  have hnode' := nodeInv_sendManifest n hnode
  obtain ⟨hdb, hsent⟩ := announces_sendManifest n
  refine ⟨hnode', followerInv_scan h (localMove_sendManifest n) hnode'.keyed (fun hrecord => ?_)
    hsent⟩
  rw [hdb]
  exact ⟨h.1, .inr hrecord⟩

/-- Applying an entry whose version is in `K`, if it is one of `p`. -/
theorem followerInv_applyRemoteEntry {entry : VersionedManifestEntry H}
    (hentry : entry.relativePath = p → K entry.versionId) :
    Within (Keeps (FollowerInv p K c)) (applyRemoteEntry entry) :=
  within_bind within_state fun _ => within_bind (within_check _) fun remote =>
    within_bind (followerInv_observeEntry entry remote) fun _ => within_bind (within_check _)
      fun loc => within_bind (within_check _) fun resolution =>
        (entryMoves_followerInv hentry).actOn remote loc resolution

theorem followerInv_applyEntry {rules : IgnoreRules} {entry : VersionedManifestEntry H}
    (hentry : entry.relativePath = p → K entry.versionId) :
    Within (Keeps (FollowerInv p K c)) (applyEntry rules entry) :=
  within_bind (within_check _) fun _ => within_when fun _ => followerInv_applyRemoteEntry hentry

theorem followerInv_receiveData {frame : Frame H} (hK : Carries p K frame) :
    Within (Keeps (FollowerInv p K c)) (receiveData frame) := by
  cases frame with
  | versionManifest m =>
    refine within_bind (within_check _) fun _ => within_bind (within_check _) fun _ => ?_
    refine within_bind (within_update fun n h => h.of_core rfl fun h => { h with }) fun _ => ?_
    refine within_bind (within_check _) fun rules => within_bind (within_forM fun e he => ?_)
      fun _ => within_update fun n h => h.of_core rfl fun h => { h with }
    exact followerInv_applyEntry (hK m rfl e he)
  | fileRequest r => exact transferMoves_followerInv.handleFileRequest r
  | chunk chunk =>
    refine within_ite (fun _ => within_raise _) fun _ => keeps_of_wp fun n h => ?_
    rw [acceptChunk, wp_bind, wp_state]
    cases hfind : n.downloads.find? (ownsChunk chunk) with
    | none => exact h
    | some download =>
      rcases h.2 with hlt | hcore
      · -- the follower has revised `p` after all: only the count matters
        have hminted : (acceptInto chunk download n).2.db.minted = n.db.minted :=
          (manifestMoves_minted.entry download.entry).acceptInto chunk rfl n
        have hdone : FollowerInv p K c (acceptInto chunk download n).2 := by
          rw [FollowerInv, revisions, hminted]
          exact ⟨h.1, .inl hlt⟩
        exact wp_of hdone
      · have hp := hcore.downloads download (List.mem_of_find?_eq_some hfind)
        exact wp_of ((entryMoves_followerInv hp).acceptInto chunk rfl n h)
  | cancel c => exact transferMoves_followerInv.handleCancel c
  | hello h => exact within_raise _
  | policy t m => exact within_raise _
  | unexpected c => exact within_raise _
  | malformed e => exact within_raise _
  | undecodable e => exact within_raise _

/-- **Every step of the follower keeps its invariant**, if what it receives is in `K`. -/
theorem followerInv_perform (hnode : NodeInv others past n) (h : FollowerInv p K c n) (e : Event H)
    (hframe : ∀ env channel frame, e = .receive env channel frame →
      HonestFrame past frame ∧ Carries p K frame) : FollowerInv p K c (n.perform e) := by
  have hcontrol : ∀ n n' : Node H, ControlMove n n' →
      Keeps (fun n => NodeInv others past n ∧ FollowerInv p K c n) n n' := fun n n' hmove h =>
    ⟨nodeInv_of_controlMove hmove h.1, followerInv_of_controlMove hmove h.2⟩
  cases e with
  | call env call =>
    have hstart : NodeInv others past { n with env := env } ∧
        FollowerInv p K c { n with env := env } :=
      ⟨{ hnode with }, h.of_core rfl fun h => { h with }⟩
    cases call with
    | start => exact (within_start hcontrol followerInv_refreshLocal _ hstart).2
    | refreshLocal => exact (followerInv_refreshLocal _ hstart).2
    | performScan => exact (followerInv_performScan _ hstart).2
    | pump =>
      exact transferMoves_followerInv.pump (fun _ _ => followerInv_of_controlMove) _ hstart.2
    | propose expectedHash rules source =>
      exact followerInv_of_controlMove (controlMove_proposeIgnorePolicy _ _ _ _) hstart.2
    | edit folder => exact h.of_core rfl fun h => { h with }
    | fault k => exact h.of_core rfl fun h => { h with }
  | receive env channel frame =>
    obtain ⟨hhonest, hK⟩ := hframe env channel frame rfl
    refine (within_receive hcontrol followerInv_refreshLocal followerInv_sendManifest channel frame
      (within_and (nodeInv_receiveData hhonest) (followerInv_receiveData hK))
      (fun _ h => ⟨{ h.1 with }, h.2.of_core rfl fun h => { h with }⟩)
      { n with env := env } ⟨{ hnode with }, h.of_core rfl fun h => { h with }⟩).2
  | restart => exact h.of_core rfl fun h => { h with downloads := nofun, sent := nofun }

end Follower

end Node

/-! ## The decision -/

namespace Node

open Exec

/-- What `ApplyRemoteEntry` calls `Resolve` with: the database after the lineage row and the clock
have been recorded, the local record, and the received one. -/
def resolveArguments (entry : VersionedManifestEntry H) (n : Node H) :
    Except Error (Database H × Option (FileRecord H) × VersionedRecord H) := do
  let remote ← toRecord n.config.taskId entry
  let db ← n.db.recordVersionLineage ⟨remote.versionId, entryParent entry⟩
  let (_, db) ← db.advanceLogicalClock remote.logicalClock
  let loc ← db.findFileRecord entry.relativePath
  pure (db, loc, ⟨remote, entryParent entry⟩)

section Decision

variable {entry : VersionedManifestEntry H} {n : Node H} {db : Database H}
  {loc : Option (FileRecord H)} {remote : VersionedRecord H}

theorem resolveArguments_eq_ok (h : resolveArguments entry n = .ok (db, loc, remote)) :
    toRecord n.config.taskId entry = .ok remote.record ∧
      remote.parentVersionId = entryParent entry ∧
      loc = n.db.records.find entry.relativePath ∧ db.records = n.db.records ∧
      entry.versionId ≠ [] ∧
      ∀ v, db.lineage.find v
        = if v = entry.versionId then some (entryParent entry) else n.db.lineage.find v := by
  obtain ⟨record, hrecord, h⟩ := ok_of_bind h
  obtain ⟨db1, hlineage, h⟩ := ok_of_bind h
  obtain ⟨⟨clock, db2⟩, hclock, h⟩ := ok_of_bind h
  obtain ⟨loc', hloc, h⟩ := ok_of_bind h
  cases h
  obtain ⟨-, -, -, -, hversion, -⟩ := toRecord_eq_ok hrecord
  obtain ⟨hne, -, -, lineage, rfl, hfind⟩ := Database.recordVersionLineage_eq_ok hlineage
  obtain ⟨-, -, rfl⟩ := advanceLogicalClock_le hclock
  obtain ⟨-, -, hloc⟩ := ok_of_bind hloc
  cases hloc
  exact ⟨hrecord, rfl, rfl, rfl, hversion ▸ hne, hversion ▸ hfind⟩

variable [ContentHash H]

/-- Without a storage failure, `ApplyRemoteEntry` calls `Resolve` with these arguments and acts on
its answer. -/
theorem applyRemoteEntry_eq (hfault : n.faultAfter = none)
    (h : resolveArguments entry n = .ok (db, loc, remote)) :
    applyRemoteEntry entry n = (do
      let resolution ← Exec.check fun _ => resolve db n.config.taskId loc remote
      actOn entry remote.record loc resolution)
        { n with
          db := db
          trace := { n.trace with observed := n.trace.observed ++ [entry] } } := by
  obtain ⟨record, hrecord, h⟩ := ok_of_bind h
  obtain ⟨db1, hlineage, h⟩ := ok_of_bind h
  obtain ⟨⟨clock, db2⟩, hclock, h⟩ := ok_of_bind h
  obtain ⟨loc', hloc, h⟩ := ok_of_bind h
  cases h
  have hrow := dbDo_eq_ok (f := fun db => db.recordVersionLineage ⟨record.versionId, _⟩) hfault
    hlineage
  have hadvance := dbGet_eq_ok (f := fun db => db.advanceLogicalClock record.logicalClock)
    (n := { n with db := db1 }) hfault hclock
  have hobserve : observeEntry entry record n = (.ok (), { n with
      db := db
      trace := { n.trace with observed := n.trace.observed ++ [entry] } }) := by
    rw [observeEntry, bind_apply_ok hrow, bind_apply_ok hadvance, update_apply]
  rw [applyRemoteEntry, bind_apply_ok (state_apply n),
    bind_apply_ok (check_apply_ok (f := fun _ => toRecord n.config.taskId entry) hrecord),
    bind_apply_ok hobserve]
  exact bind_apply_ok (check_apply_ok (f := fun m : Node H =>
    m.db.findFileRecord entry.relativePath) hloc)

/-- **When a revision is recognised.**  Of two nodes that share one history, the first one knows the
chain from the entry's version down to the version the second one has stored, `k` steps below.  The
second one applies the entry exactly if it is not there already, the chain is short enough for the
walk, and its own table has a row for every version in between. -/
theorem resolve_iff_of_chain {a : Node H} {others others' past past' : List Creation}
    (ha : NodeInv others past a) (hn : NodeInv others' past' n)
    (hhistory : ∀ c, c ∈ n.created others' ↔ c ∈ a.created others)
    (hentry : creationOf entry ∈ a.created others) {r : FileRecord H}
    (hr : n.db.records.find entry.relativePath = some r) {k : Nat}
    (hk : Climb.ancestorAt a.db.parentOf k entry.versionId = some r.versionId)
    (hargs : resolveArguments entry n = .ok (db, loc, remote)) :
    resolve db n.config.taskId loc remote = .ok ⟨.applyRemote, true, []⟩ ↔
      0 < k ∧ k < Database.ancestryLimit ∧ ∀ i, 0 < i → i < k → ∀ x,
        Climb.ancestorAt a.db.parentOf i entry.versionId = some x →
          (n.db.lineage.find x).isSome := by
  obtain ⟨hrecord, hparent, rfl, hrecords, hne, hfind⟩ := resolveArguments_eq_ok hargs
  obtain ⟨htask, hpath, -, -, hversion, -⟩ := toRecord_eq_ok hrecord
  obtain ⟨hown, hvalid⟩ := hn.own _ r hr
  obtain ⟨-, hlocalVersion, -, hlocalPath⟩ := Database.validateFileRecord_eq_ok hvalid
  have hkey : r.relativePath = entry.relativePath := (hn.records _ r hr).1
  have hcomparable : Comparable n.config.taskId r remote.record := by
    refine ⟨n.config.taskId_ne, hown, htask, hkey.trans hpath.symm, ?_, hlocalVersion,
      hversion ▸ hne⟩
    rw [hpath, ← hkey]
    intro hnil
    rw [hnil] at hlocalPath
    cases hlocalPath
  -- a row of either table repeats a creation, so the tables agree where both have one
  have hrow : ∀ x q, db.lineage.find x = some q →
      ∃ c ∈ a.created others, c.versionId = x ∧ c.parentVersionId = q := by
    intro x q hx
    rw [hfind] at hx
    split at hx
    · rename_i hxe
      cases hx
      exact ⟨_, hentry, hxe.symm, rfl⟩
    · obtain ⟨c, hc, hrest⟩ := hn.rows x q hx
      exact ⟨c, (hhistory c).mp hc, hrest⟩
  have hagree : ∀ x q z, db.lineage.find x = some q → a.db.parentOf x = some z → q = some z := by
    intro x q z hx hz
    obtain ⟨c, hc, hcv, rfl⟩ := hrow x q hx
    obtain ⟨d, hd, hdv, hdp⟩ := ha.rows x _ (Database.parentOf_eq_some.mp hz)
    rw [ha.history.unique c hc d hd (hcv.trans hdv.symm), hdp]
  have hclimb := Climb.climb_eq_true_iff db.parentOf ha.acyclic
    (fun x y z hy hz => Option.some.inj (hagree x _ z (Database.parentOf_eq_some.mp hy) hz)) hk
    Database.ancestryLimit
  have hzero : 0 < k ↔ r.versionId ≠ entry.versionId := by
    constructor
    · intro hpos heq
      rw [heq] at hk
      exact ha.acyclic _ (Climb.strictlyAbove_of_ancestorAt hpos hk)
    · intro hneq
      refine Nat.pos_of_ne_zero fun hk0 => hneq ?_
      rw [hk0] at hk
      exact (Option.some.inj hk).symm
  have hlater : ∀ i, 0 < i → ∀ x, Climb.ancestorAt a.db.parentOf i entry.versionId = some x →
      x ≠ entry.versionId := by
    rintro i hpos x hx rfl
    exact ha.acyclic _ (Climb.strictlyAbove_of_ancestorAt hpos hx)
  obtain ⟨record, parent⟩ := remote
  rw [hr, resolve_eq_applyRemote_iff hcomparable, hversion, hclimb, hzero]
  refine and_congr_right fun hneq => and_congr_right fun _ => ⟨fun h i hpos hi x hx => ?_,
    fun h i hi x hx => ?_⟩
  · obtain ⟨z, hz⟩ := Climb.exists_up_of_ancestorAt hk hi hx
    have hdb := Database.parentOf_eq_some.mp ((h i hi x hx).trans hz)
    rw [hfind, if_neg (hlater i hpos x hx)] at hdb
    rw [hdb]
    rfl
  · obtain ⟨z, hz⟩ := Climb.exists_up_of_ancestorAt hk hi hx
    have hdb : ∃ q, db.lineage.find x = some q := by
      rcases Nat.eq_zero_or_pos i with rfl | hpos
      · cases hx
        exact ⟨_, (hfind _).trans (if_pos rfl)⟩
      · rw [hfind, if_neg (hlater i hpos x hx)]
        exact Option.isSome_iff_exists.mp (h i hpos hi x hx)
    obtain ⟨q, hq⟩ := hdb
    rw [hz, Database.parentOf_eq_some, hq, hagree x q z hq hz]

end Decision

end Node

/-! ## Both sides -/

namespace World

open Node

variable [ContentHash H]

/-- The version of the chain that `a` is at the top of. -/
abbrev Revision (p : Path) (v₀ : VersionId) (w : World H) : VersionId → Prop :=
  OnChain p v₀ (w.node .a)

/-- `a` edits `p` and `b` follows: everything that can still reach either of them carries a version
of the chain.  `since` is the number of frames each side had sent when the edits began. -/
structure RevisionInv (p : Path) (v₀ : VersionId) (since : Side → Nat) (w : World H) : Prop where
  lamport : w.LamportInv
  editor : EditorInv p v₀ (Revision p v₀ w) (w.node .a)
  follower : FollowerCore p (Revision p v₀ w) (w.node .b)
  queue : ∀ s channel, ∀ f ∈ w.queue s channel, Carries p (Revision p v₀ w) f
  sent : ∀ s i f, since s ≤ i → (w.sent s)[i]? = some f → Carries p (Revision p v₀ w) f

section Runs

variable {p : Path} {v₀ : VersionId} {since : Side → Nat} {w : World H}

/-- Frames that join the queues after a step carry versions of the chain, if the old ones and the
new ones do. -/
theorem carries_settle {K : VersionId → Prop} {s : Side} {n : Node H}
    (hqueue : ∀ s channel, ∀ f ∈ w.queue s channel, Carries p K f)
    (hsent : ∀ s i f, since s ≤ i → (w.sent s)[i]? = some f → Carries p K f)
    (hout : ∀ f ∈ n.out, Carries p K f) :
    (∀ t channel, ∀ f ∈ (w.settle s n).queue t channel, Carries p K f) ∧
      ∀ t i f, since t ≤ i → ((w.settle s n).sent t)[i]? = some f → Carries p K f := by
  constructor
  · intro t channel f hf
    simp only [settle] at hf
    split at hf
    · rcases List.mem_append.mp hf with hf | hf
      · exact hqueue t channel f hf
      · exact hout f (List.mem_of_mem_filter hf)
    · exact hqueue t channel f hf
  · intro t i f hi hf
    simp only [settle] at hf
    split at hf
    · rw [List.getElem?_append] at hf
      split at hf
      · exact hsent t i f hi hf
      · exact hout f (List.mem_of_getElem? hf)
    · exact hsent t i f hi hf

/-- A step of the editor. -/
theorem revisionInv_editor (h : RevisionInv p v₀ since w) (e : Event H)
    (hframe : ∀ env channel frame, e = .receive env channel frame →
      HonestFrame (w.created .a) frame ∧ Carries p (Revision p v₀ w) frame) :
    RevisionInv p v₀ since (w.perform .a e) := by
  have hlamport := lamportInv_perform h.lamport .a e fun env ch f he => (hframe env ch f he).1
  have hnode : (w.node .a).NodeInv (w.node .b).db.minted (w.created .a) :=
    { h.lamport.node .a with grows := fun _ hc => hc }
  have heditor := editorInv_perform hnode h.editor e hframe
  have hgrows : ∀ x, Revision p v₀ w x → OnChain p v₀ ((w.node .a).perform e) x := heditor.chain
  have hcarries := carries_settle (w := w) (s := .a) (n := (w.node .a).perform e)
    (fun s channel f hf => (h.queue s channel f hf).mono hgrows)
    (fun s i f hi hf => (h.sent s i f hi hf).mono hgrows) heditor.sent
  exact ⟨hlamport, { heditor with chain := fun _ hx => hx, sent := nofun },
    ⟨h.follower.record.imp fun r hr => ⟨hr.1, hgrows _ hr.2⟩,
      fun d hd hp => hgrows _ (h.follower.downloads d hd hp),
      fun f hf => (h.follower.sent f hf).mono hgrows⟩, hcarries.1, hcarries.2⟩

/-- A step of the follower. -/
theorem revisionInv_follower (h : RevisionInv p v₀ since w) (e : Event H)
    (hquiet : revisions p ((w.perform .b e).node .b).db = revisions p (w.node .b).db)
    (hframe : ∀ env channel frame, e = .receive env channel frame →
      HonestFrame (w.created .b) frame ∧ Carries p (Revision p v₀ w) frame) :
    RevisionInv p v₀ since (w.perform .b e) := by
  have hlamport := lamportInv_perform h.lamport .b e fun env ch f he => (hframe env ch f he).1
  have hnode : (w.node .b).NodeInv (w.node .a).db.minted (w.created .b) :=
    { h.lamport.node .b with grows := fun _ hc => hc }
  have hstart : FollowerInv p (Revision p v₀ w) (revisions p (w.node .b).db) (w.node .b) :=
    ⟨le_rfl, .inr h.follower⟩
  obtain ⟨-, hrest⟩ := followerInv_perform hnode hstart e hframe
  have hcore := hrest.resolve_left hquiet.not_gt
  have hcarries := carries_settle (w := w) (s := .b) (n := (w.node .b).perform e) h.queue h.sent
    hcore.sent
  exact ⟨hlamport, h.editor, { hcore with sent := nofun }, hcarries.1, hcarries.2⟩

theorem RevisionInv.queues (h : RevisionInv p v₀ since w)
    {queue : Side → Channel → List (Frame H)}
    (hqueue : ∀ s channel, ∀ f ∈ queue s channel, f ∈ w.queue s channel) :
    RevisionInv p v₀ since { w with queue := queue } :=
  { h with
    lamport := h.lamport.queues hqueue
    queue := fun s channel f hf => h.queue s channel f (hqueue s channel f hf) }

theorem RevisionInv.dropHead (h : RevisionInv p v₀ since w) (s : Side) (channel : Channel) :
    RevisionInv p v₀ since (w.dropHead s channel) := by
  refine h.queues fun t c f hf => ?_
  split at hf
  · exact List.mem_of_mem_tail hf
  · exact hf

/-- A step in which the follower does not revise `p`, and which does not deliver again what was sent
before the edits began. -/
structure Follows (p : Path) (since : Side → Nat) (w : World H) (a : Action H) : Prop where
  quiet : revisions p ((w.step a).node .b).db = revisions p (w.node .b).db
  fresh : ∀ s env index, a = .replay s env index → since s.other ≤ index

theorem revisionInv_perform (h : RevisionInv p v₀ since w) (s : Side) (e : Event H)
    (hquiet : revisions p ((w.perform s e).node .b).db = revisions p (w.node .b).db)
    (hframe : ∀ env channel frame, e = .receive env channel frame →
      HonestFrame (w.created s) frame ∧ Carries p (Revision p v₀ w) frame) :
    RevisionInv p v₀ since (w.perform s e) := by
  cases s with
  | a => exact revisionInv_editor h e hframe
  | b => exact revisionInv_follower h e hquiet hframe

theorem revisionInv_step (h : RevisionInv p v₀ since w) (a : Action H)
    (ha : Follows p since w a) : RevisionInv p v₀ since (w.step a) := by
  have hquiet := ha.quiet
  cases a with
  | call s env c => exact revisionInv_perform h s _ hquiet fun _ _ _ he => by cases he
  | deliver s env channel =>
    rw [step] at hquiet ⊢
    split
    · exact h
    · rename_i frame rest hq
      rw [hq] at hquiet
      refine revisionInv_perform (h.dropHead s channel) s _ hquiet fun _ _ f hf => ?_
      obtain ⟨-, -, rfl⟩ := Event.receive.inj hf
      have hmem : frame ∈ w.queue s channel := hq ▸ List.mem_cons_self
      exact ⟨h.lamport.queue s channel _ hmem, h.queue s channel _ hmem⟩
  | lose s channel => exact h.dropHead s channel
  | replay s env index =>
    rw [step] at hquiet ⊢
    split
    · exact h
    · rename_i frame hget
      rw [hget] at hquiet
      refine revisionInv_perform h s _ hquiet fun _ _ f hf => ?_
      obtain ⟨-, -, rfl⟩ := Event.receive.inj hf
      refine ⟨?_, h.sent s.other index _ (ha.fresh s env index rfl) hget⟩
      refine (h.lamport.sent s.other _ (List.mem_of_getElem? hget)).mono fun c hc => ?_
      exact (mem_created_other w s c).mp hc
  | restart s =>
    have hrestart := revisionInv_perform h s .restart hquiet fun _ _ _ he => by cases he
    exact hrestart.queues fun _ _ f hf => absurd hf List.not_mem_nil

/-- Both peers hold the version `v₀` of `p`, neither downloads anything for `p`, and the manifests
in flight have no other version of it. -/
structure Level (p : Path) (v₀ : VersionId) (w : World H) : Prop where
  record : ∀ s, versionsOf (w.node s).db p = some v₀
  downloads : ∀ s, ∀ d ∈ (w.node s).downloads, d.entry.relativePath ≠ p
  queue : ∀ s channel, ∀ f ∈ w.queue s channel, Carries p (· = v₀) f

theorem revisionInv_level (hlamport : w.LamportInv) (h : Level p v₀ w) :
    RevisionInv p v₀ (fun s => (w.sent s).length) w := by
  have hrecord : ∀ s, ∃ r, (w.node s).db.records.find p = some r ∧ r.versionId = v₀ :=
    fun s => Option.map_eq_some_iff.mp (h.record s)
  obtain ⟨r, hr, hv⟩ := hrecord .a
  have hbase : Revision p v₀ w v₀ := ⟨r, hr, hv ▸ .refl, .refl⟩
  have hidle : ∀ s K, ∀ f ∈ (w.node s).out, Carries p K f := by
    intro s K f hf
    rw [hlamport.idle] at hf
    cases hf
  refine ⟨hlamport, ⟨⟨r, hr, hv ▸ .refl⟩, fun _ hx => hx, h.downloads .a, hidle .a _⟩,
    ⟨?_, fun d hd hp => absurd hp (h.downloads .b d hd), hidle .b _⟩, ?_, ?_⟩
  · obtain ⟨r', hr', hv'⟩ := hrecord .b
    exact ⟨r', hr', hv' ▸ hbase⟩
  · exact fun s channel f hf => (h.queue s channel f hf).mono fun x hx => hx ▸ hbase
  · intro s i f hi hf
    rw [List.getElem?_eq_none hi] at hf
    cases hf

/-- Entries of a manifest that come before the one of `p` leave the chain alone. -/
theorem followerCore_forM (h : RevisionInv p v₀ since w) (rules : IgnoreRules)
    {entries : List (VersionedManifestEntry H)}
    (hhonest : ∀ e ∈ entries, creationOf e ∈ w.created .b)
    (hK : ∀ e ∈ entries, e.relativePath = p → Revision p v₀ w e.versionId) :
    (entries.forM (applyEntry rules) (w.node .b)).2.NodeInv (w.node .a).db.minted (w.created .b) ∧
      FollowerCore p (Revision p v₀ w) (entries.forM (applyEntry rules) (w.node .b)).2 ∧
      (entries.forM (applyEntry rules) (w.node .b)).2.db.minted = (w.node .b).db.minted := by
  have hminted : Exec.Within (Exec.Same fun n : Node H => n.db.minted)
      (entries.forM (applyEntry rules)) :=
    Exec.within_forM fun e _ => Exec.within_bind (Exec.within_check _) fun _ =>
      Exec.within_when fun _ => manifestMoves_minted.applyRemoteEntry e
  have hnode : Exec.Within (Exec.Keeps (NodeInv (w.node .a).db.minted (w.created .b)))
      (entries.forM (applyEntry rules)) :=
    Exec.within_forM fun e he => Exec.within_bind (Exec.within_check _) fun _ =>
      Exec.within_when fun _ => nodeInv_applyRemoteEntry (hhonest e he)
  have hfollower : Exec.Within (Exec.Keeps (FollowerInv p (Revision p v₀ w)
      (revisions p (w.node .b).db))) (entries.forM (applyEntry rules)) :=
    Exec.within_forM fun e he => followerInv_applyEntry (hK e he)
  have hsame : (entries.forM (applyEntry rules) (w.node .b)).2.db.minted
      = (w.node .b).db.minted := hminted (w.node .b)
  have hcount : revisions p (entries.forM (applyEntry rules) (w.node .b)).2.db
      = revisions p (w.node .b).db := by
    unfold revisions
    rw [hsame]
  refine ⟨hnode _ { h.lamport.node .b with grows := fun _ hc => hc }, ?_, hsame⟩
  exact (hfollower _ ⟨le_rfl, .inr h.follower⟩).2.resolve_left hcount.not_gt

end Runs

/-- **When a revision is recognised as a successor.**  Two peers hold the same version `v₀` of `p`.
From then on only `a` revises `p`; manifests are delivered, lost and delivered again in any order,
and anything may happen to other paths.  When `b` comes to the entry of a manifest that has `a`'s
latest version of `p`, `b`'s own version is some version `k` revisions below it on the chain down
to `v₀`.  `b` applies the entry if and only if it is behind at all, the walk is allowed to go that
far, and `b` has a lineage row for each of the revisions in between. -/
theorem resolve_revision_iff {w : World H} (hreach : w.Reachable) (actions : List (Action H))
    {p : Path} {v₀ : VersionId} (hlevel : Level p v₀ w)
    (hfollows : Run.Along step (Follows p fun s => (w.sent s).length) w actions)
    {m : VersionedManifest H}
    (hm : Frame.versionManifest m ∈ ((w.run actions).sent .a).drop (w.sent .a).length)
    {before after : List (VersionedManifestEntry H)} {entry : VersionedManifestEntry H}
    (hentries : m.entries = before ++ entry :: after) (hp : entry.relativePath = p)
    (hlatest : versionsOf ((w.run actions).node .a).db p = some entry.versionId)
    (rules : IgnoreRules) {n : Node H}
    (hn : n = (before.forM (applyEntry rules) ((w.run actions).node .b)).2)
    {db : Database H} {loc : Option (FileRecord H)} {remote : VersionedRecord H}
    (hargs : resolveArguments entry n = .ok (db, loc, remote)) :
    ∃ u k, versionsOf n.db p = some u ∧ OnChain p v₀ ((w.run actions).node .a) u ∧
      Climb.ancestorAt ((w.run actions).node .a).db.parentOf k entry.versionId = some u ∧
      (resolve db n.config.taskId loc remote = .ok ⟨.applyRemote, true, []⟩ ↔
        0 < k ∧ k < Database.ancestryLimit ∧ ∀ i, 0 < i → i < k → ∀ x,
          Climb.ancestorAt ((w.run actions).node .a).db.parentOf i entry.versionId = some x →
            (n.db.lineage.find x).isSome) := by
  have hinv : RevisionInv p v₀ (fun s => (w.sent s).length) (w.run actions) :=
    Run.run_invariant (I := RevisionInv p v₀ _) (fun _ a ha hw => revisionInv_step hw a ha) actions
      _ hfollows (revisionInv_level hreach.lamportInv hlevel)
  generalize w.run actions = w' at *
  obtain ⟨i, hget⟩ := List.mem_iff_getElem?.mp hm
  rw [List.getElem?_drop] at hget
  have hcarries := hinv.sent .a _ _ (Nat.le_add_right _ i) hget
  have hhonest := hinv.lamport.sent .a _ (List.mem_of_getElem? hget)
  have hbefore : ∀ e ∈ before, e ∈ m.entries := fun e he => by
    rw [hentries]
    exact List.mem_append_left _ he
  -- the entries before this one are applied first, and move the record of the peer up the chain
  -- only
  obtain ⟨hnode, hcore, hminted⟩ := followerCore_forM hinv rules
    (fun e (he : e ∈ before) => (mem_created_other w' .a _).mpr (hhonest m rfl e (hbefore e he)))
    (fun e he => hcarries m rfl e (hbefore e he))
  rw [← hn] at hnode hcore hminted
  have hmem : entry ∈ m.entries := by
    rw [hentries]
    exact List.mem_append_right _ List.mem_cons_self
  obtain ⟨r, hr, hchain⟩ := hcore.record
  obtain ⟨top, htop, habove, hbottom⟩ := hchain
  have htopv : top.versionId = entry.versionId := by
    rw [versionsOf, htop, Option.map_some] at hlatest
    exact Option.some.inj hlatest
  obtain ⟨k, hk⟩ := Climb.ancestorAt_of_above (htopv ▸ habove)
  refine ⟨r.versionId, k, by rw [versionsOf, hr, Option.map_some], ⟨top, htop, habove, hbottom⟩, hk,
    ?_⟩
  refine resolve_iff_of_chain (hinv.lamport.node .a) hnode (fun c => ?_)
    (hhonest m rfl entry hmem) (hp ▸ hr) hk hargs
  simp only [Node.created, hminted, List.mem_append]
  exact or_comm

/-! ### A revision that is not recognised -/

/-- The sample peers meet, `a` creates `f`, and `b` gets it. -/
def fileShared : World Bytes :=
  (sampleWorld (.empty []) (.empty [])).run (connect ++
    [.call .a sampleEnvironment (.edit fileFolder), .call .a sampleEnvironment .refreshLocal,
      .deliver .b sampleEnvironment .control])

/-- `a` deletes `f`; something happens to the manifest; `a` creates `f` again. -/
def revisedTwice (between : Action Bytes) : List (Action Bytes) :=
  [.call .a sampleEnvironment (.edit (.empty [])),
    .call .a sampleEnvironment .refreshLocal, between,
    .call .a sampleEnvironment (.edit fileFolder), .call .a sampleEnvironment .refreshLocal]

/-- What `a` sends then: the second revision of `f`, on top of the first one. -/
def secondRevision : VersionedManifestEntry Bytes :=
  ⟨ascii "f", .file, 0, some [], ascii "a00", ascii "a", 3, ascii "a0", none⟩

theorem reachable_fileShared : fileShared.Reachable := ⟨_, new_sampleWorld _ _, _, rfl⟩

theorem level_fileShared : Level (ascii "f") (ascii "a") fileShared := by
  have hdownloads : ∀ s, (fileShared.node s).downloads.isEmpty = true := by
    intro s
    cases s <;> decide +kernel
  have hqueue : ∀ s channel, (fileShared.queue s channel).isEmpty = true := by
    intro s channel
    cases s <;> cases channel <;> decide +kernel
  refine ⟨fun s => ?_, fun s d hd => ?_, fun s channel f hf => ?_⟩
  · cases s <;> decide +kernel
  · rw [List.isEmpty_iff.mp (hdownloads s)] at hd
    cases hd
  · rw [List.isEmpty_iff.mp (hqueue s channel)] at hf
    cases hf

theorem follows_revisedTwice {between : Action Bytes}
    (h : between = .lose .b .control ∨ between = .deliver .b sampleEnvironment .control) :
    Run.Along step (Follows (ascii "f") fun s => (fileShared.sent s).length) fileShared
      (revisedTwice between) := by
  rcases h with rfl | rfl
  · exact ⟨⟨by decide +kernel, nofun⟩, ⟨by decide +kernel, nofun⟩, ⟨by decide +kernel, nofun⟩,
      ⟨by decide +kernel, nofun⟩, ⟨by decide +kernel, nofun⟩, trivial⟩
  · exact ⟨⟨by decide +kernel, nofun⟩, ⟨by decide +kernel, nofun⟩, ⟨by decide +kernel, nofun⟩,
      ⟨by decide +kernel, nofun⟩, ⟨by decide +kernel, nofun⟩, trivial⟩

/-- The manifest of the first revision is lost, and the second revision, which is a successor, is
taken for a conflict. -/
theorem resolve_skipped_revision :
    Level (ascii "f") (ascii "a") fileShared ∧
      Run.Along step (Follows (ascii "f") fun s => (fileShared.sent s).length) fileShared
        (revisedTwice (.lose .b .control)) ∧
      Frame.versionManifest ⟨4, [secondRevision]⟩
        ∈ ((fileShared.run (revisedTwice (.lose .b .control))).sent .a).drop
          (fileShared.sent .a).length ∧
      versionsOf ((fileShared.run (revisedTwice (.lose .b .control))).node .a).db (ascii "f")
        = some secondRevision.versionId ∧
      ∃ db loc remote resolution,
        resolveArguments secondRevision
            ((fileShared.run (revisedTwice (.lose .b .control))).node .b)
          = .ok (db, loc, remote) ∧
        resolve db (ascii "t") loc remote = .ok resolution ∧ resolution.action = .conflict := by
  refine ⟨level_fileShared, follows_revisedTwice (.inl rfl), by decide +kernel, by decide +kernel,
    ?_⟩
  have hconflict : (do
      let (db, loc, remote) ← resolveArguments secondRevision
        ((fileShared.run (revisedTwice (.lose .b .control))).node .b)
      let resolution ← resolve db (ascii "t") loc remote
      pure resolution.action) = Except.ok (ε := Error) .conflict := by decide +kernel
  obtain ⟨⟨db, loc, remote⟩, hargs, hrest⟩ := ok_of_bind hconflict
  obtain ⟨resolution, hresolve, haction⟩ := ok_of_bind hrest
  exact ⟨db, loc, remote, resolution, hargs, hresolve, Except.ok.inj haction⟩

/-- The same two revisions, with the first manifest delivered. -/
theorem resolve_revision_delivered : ∃ n : Node Bytes,
    n = (fileShared.run (revisedTwice (.deliver .b sampleEnvironment .control))).node .b ∧
    ∃ db loc remote, resolveArguments secondRevision n = .ok (db, loc, remote) ∧
      ∃ u k, versionsOf n.db (ascii "f") = some u ∧
        (resolve db n.config.taskId loc remote = .ok ⟨.applyRemote, true, []⟩ ↔
          0 < k ∧ k < Database.ancestryLimit ∧ ∀ i, 0 < i → i < k → ∀ x,
            Climb.ancestorAt ((fileShared.run
                (revisedTwice (.deliver .b sampleEnvironment .control))).node .a).db.parentOf i
              secondRevision.versionId = some x → (n.db.lineage.find x).isSome) := by
  have hok : (resolveArguments secondRevision ((fileShared.run
      (revisedTwice (.deliver .b sampleEnvironment .control))).node .b)).isOk = true := by
    decide +kernel
  obtain ⟨n, hn⟩ : ∃ n, n = (fileShared.run
    (revisedTwice (.deliver .b sampleEnvironment .control))).node .b := ⟨_, rfl⟩
  rw [← hn] at hok
  -- stated for any node, so that the run is not evaluated to see it
  have hnil : ∀ m : Node Bytes, m = (List.forM [] (applyEntry ⟨[]⟩) m).2 := fun _ => rfl
  cases hargs : resolveArguments secondRevision n with
  | error e =>
    rw [hargs] at hok
    cases hok
  | ok arguments =>
    obtain ⟨db, loc, remote⟩ := arguments
    obtain ⟨u, k, hu, -, -, hiff⟩ := resolve_revision_iff reachable_fileShared
      (revisedTwice (.deliver .b sampleEnvironment .control)) level_fileShared
      (follows_revisedTwice (.inr rfl)) (m := ⟨4, [secondRevision]⟩) (by decide +kernel)
      (List.nil_append [secondRevision]).symm rfl (by decide +kernel) ⟨[]⟩ (hn.trans (hnil _))
      hargs
    exact ⟨n, hn, db, loc, remote, hargs, u, k, hu, hiff⟩

end World

end VeritasSync
