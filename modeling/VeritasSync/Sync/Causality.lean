import VeritasSync.Sync.Lamport

/-!
# Causality across two peers

`NodeInv` is about one node and a history it shares with its peer.  Here the two meet: both nodes
satisfy it for the union of what either has created, and every frame in flight repeats creations of
that union.  A step of one side extends the history by versions the other side has not heard of,
which is why the device identifiers and the identifier supplies have to be distinct.

`causal_run` is the result: in every state of every run of a new task, clocks and lineage are
consistent on both peers.

The statement that is wanted has no history in it.  It says of the two nodes that a parent has a
smaller clock than its child, that no two versions have the same clock and origin, that no version
is its own ancestor and that every record has a row.  None of these is inductive by itself: whether
a manifest that arrives keeps them depends on what the peer has put into it, some time ago.  So the
proof carries the list of all creations along, which never shrinks and which everything else only
repeats.
-/

set_option autoImplicit false
set_option linter.unusedSectionVars false

namespace VeritasSync

variable {H : Type}

/-! ## The invariant of the two peers -/

namespace World

open Node

variable [ContentHash H]

/-- Everything ever created, as one side sees it. -/
def created (w : World H) (s : Side) : List Creation :=
  (w.node s).created (w.node s.other).db.minted

/-- The identifiers of the two peers are their own. -/
def Distinct (w : World H) : Prop := ∀ s,
  (w.node s).config.deviceId ≠ (w.node s.other).config.deviceId ∧
    ∀ i j, (w.node s).uuid i ≠ (w.node s.other).uuid j

/-- A step changes neither what a node was set up with nor what its peer was. -/
theorem identity_perform (w : World H) (s : Side) (e : Event H) (t : Side) :
    ((w.perform s e).node t).identity = (w.node t).identity := by
  rcases Side.eq_or_eq_other s t with rfl | rfl
  · rw [perform, settle_node_self]
    exact Node.identity_perform (w.node t) e
  · rw [perform, settle_node_other]

theorem Distinct.of_identity {w w' : World H} (h : w.Distinct)
    (hid : ∀ t, (w'.node t).identity = (w.node t).identity) : w'.Distinct := by
  intro t
  have hconfig : ∀ t, (w'.node t).config = (w.node t).config := fun t => congrArg Prod.fst (hid t)
  have huuid : ∀ t, (w'.node t).uuid = (w.node t).uuid := fun t => congrArg Prod.snd (hid t)
  rw [hconfig, hconfig, huuid, huuid]
  exact h t

/-- Both nodes satisfy the invariant for one history, and every frame in flight repeats it. -/
structure LamportInv (w : World H) : Prop where
  node : ∀ s, (w.node s).NodeInv (w.node s.other).db.minted []
  idle : ∀ s, (w.node s).out = []
  distinct : w.Distinct
  queue : ∀ s channel, ∀ f ∈ w.queue s channel, HonestFrame (w.created s) f
  sent : ∀ s, ∀ f ∈ w.sent s, HonestFrame (w.created s) f

theorem mem_created_other (w : World H) (s : Side) (c : Creation) :
    c ∈ w.created s.other ↔ c ∈ w.created s := by
  simp only [created, Node.created, Side.other_other, List.mem_append]
  exact or_comm

/-- A step of one side, as that side sees it: its own invariant, with all that was created
before. -/
theorem nodeInv_step {w : World H} (h : w.LamportInv) {s : Side} {e : Event H}
    (hframe : ∀ env channel frame, e = .receive env channel frame →
      HonestFrame (w.created s) frame) :
    ((w.node s).perform e).NodeInv (w.node s.other).db.minted (w.created s) :=
  nodeInv_perform { h.node s with grows := fun _ hc => hc } e hframe

/-- The peer's invariant after a step of this side. -/
theorem nodeInv_peer {w : World H} (h : w.LamportInv) {s : Side} {e : Event H}
    (hstep : ((w.node s).perform e).NodeInv (w.node s.other).db.minted (w.created s)) :
    (w.node s.other).NodeInv ((w.node s).perform e).db.minted [] := by
  have hpeer := h.node s.other
  rw [Side.other_other] at hpeer
  have hid := Node.identity_perform (w.node s) e
  have hconfig := congrArg Prod.fst hid
  have huuid := congrArg Prod.snd hid
  refine hpeer.grow nofun ?_ ?_ ?_
  · refine hstep.history.congr fun c => ?_
    simp only [Node.created, List.mem_append]
    exact or_comm
  · -- what this side had created is still its own
    intro c hc
    rcases List.mem_append.mp (hstep.grows c (List.mem_append_left _ hc)) with hc' | hc'
    · exact hc'
    · exact absurd ((h.node s).minted c hc).1 ((h.node s).foreign c hc').1
  · intro c hc
    obtain ⟨horigin, -, i, -, hv⟩ := hstep.minted c hc
    rw [horigin, hv, show ((w.node s).perform e).config = _ from hconfig,
      show ((w.node s).perform e).uuid = _ from huuid]
    exact ⟨(h.distinct s).1, fun j => (h.distinct s).2 i j⟩

/-- **A step of one side keeps the invariant of both**, if the frame it receives is honest. -/
theorem lamportInv_perform {w : World H} (h : w.LamportInv) (s : Side) (e : Event H)
    (hframe : ∀ env channel frame, e = .receive env channel frame →
      HonestFrame (w.created s) frame) : (w.perform s e).LamportInv := by
  have hstep := nodeInv_step h hframe
  have hpeer := nodeInv_peer h hstep
  have hcreated : (w.perform s e).created s
      = ((w.node s).perform e).created (w.node s.other).db.minted := by
    simp [created, perform, Node.created]
  have hgrows : ∀ t, ∀ c ∈ w.created t, c ∈ (w.perform s e).created t := by
    intro t c hc
    rcases Side.eq_or_eq_other s t with rfl | rfl
    · exact hcreated ▸ hstep.grows c hc
    · rw [mem_created_other] at hc ⊢
      exact hcreated ▸ hstep.grows c hc
  have hout : ∀ f ∈ ((w.node s).perform e).out, HonestFrame ((w.perform s e).created s) f := by
    intro f hf m hm e' he'
    rw [hcreated]
    exact hstep.sent m (hm ▸ hf) e' he'
  -- a step changes one node and what it has sent; the peer is as it was
  constructor
  · intro t
    rcases Side.eq_or_eq_other s t with rfl | rfl
    · rw [perform, settle_node_self, settle_node_other]
      exact { hstep with
        grows := fun _ h => absurd h List.not_mem_nil
        sent := fun _ h => absurd h List.not_mem_nil }
    · rw [Side.other_other, perform, settle_node_self, settle_node_other]
      exact hpeer
  · intro t
    rcases Side.eq_or_eq_other s t with rfl | rfl
    · rw [perform, settle_node_self]
    · rw [perform, settle_node_other]
      exact h.idle _
  · exact h.distinct.of_identity (identity_perform w s e)
  · intro t channel f hf
    simp only [perform, settle] at hf
    split at hf
    · rename_i ht
      subst ht
      rcases List.mem_append.mp hf with hf | hf
      · exact (h.queue _ channel f hf).mono (hgrows _)
      · refine (hout f (List.mem_of_mem_filter hf)).mono fun c hc => ?_
        exact (mem_created_other _ _ c).mpr hc
    · exact (h.queue t channel f hf).mono (hgrows t)
  · intro t f hf
    simp only [perform, settle] at hf
    split at hf
    · rename_i ht
      subst ht
      rcases List.mem_append.mp hf with hf | hf
      · exact (h.sent _ f hf).mono (hgrows _)
      · exact hout f hf
    · exact (h.sent t f hf).mono (hgrows t)

/-- Frames that are gone do not matter. -/
theorem LamportInv.queues {w : World H} (h : w.LamportInv)
    {queue : Side → Channel → List (Frame H)}
    (hqueue : ∀ s channel, ∀ f ∈ queue s channel, f ∈ w.queue s channel) :
    { w with queue := queue }.LamportInv :=
  { h with queue := fun s channel f hf => h.queue s channel f (hqueue s channel f hf) }

theorem LamportInv.dropHead {w : World H} (h : w.LamportInv) (s : Side) (channel : Channel) :
    (w.dropHead s channel).LamportInv := by
  refine h.queues fun t c f hf => ?_
  split at hf
  · exact List.mem_of_mem_tail hf
  · exact hf

theorem lamportInv_step {w : World H} (h : w.LamportInv) (a : Action H) :
    (w.step a).LamportInv := by
  cases a with
  | call s env c => exact lamportInv_perform h s _ nofun
  | deliver s env channel =>
    rw [step]
    split
    · exact h
    · rename_i frame rest hq
      refine lamportInv_perform (h.dropHead s channel) s _ fun _ _ f hf => ?_
      obtain ⟨-, -, rfl⟩ := Event.receive.inj hf
      exact h.queue s channel _ (hq ▸ List.mem_cons_self)
  | lose s channel => exact h.dropHead s channel
  | replay s env index =>
    rw [step]
    split
    · exact h
    · rename_i frame hget
      refine lamportInv_perform h s _ fun _ _ f hf => ?_
      obtain ⟨-, -, rfl⟩ := Event.receive.inj hf
      refine (h.sent s.other _ (List.mem_of_getElem? hget)).mono fun c hc => ?_
      exact (mem_created_other w s c).mp hc
  | restart s => exact (lamportInv_perform h s .restart nofun).queues nofun

/-- Two peers of a task that has never run; their folders may hold anything. -/
structure New (w : World H) : Prop where
  node : ∀ s, ∃ config env uuid transferId folder,
    w.node s = .create config env uuid transferId folder ∧ Supply uuid
  queue : ∀ s channel, w.queue s channel = []
  sent : ∀ s, w.sent s = []
  distinct : w.Distinct

theorem lamportInv_new {w : World H} (h : w.New) : w.LamportInv := by
  have hminted : ∀ s, (w.node s).db.minted = [] := by
    intro s
    obtain ⟨config, env, uuid, transferId, folder, heq, -⟩ := h.node s
    rw [heq]
    rfl
  constructor
  · intro s
    rw [hminted]
    obtain ⟨config, env, uuid, transferId, folder, heq, hsupply⟩ := h.node s
    rw [heq]
    have hcreated : (Node.create config env uuid transferId folder : Node H).created [] = [] := rfl
    refine ⟨nofun, hcreated ▸ ⟨nofun, nofun, nofun, nofun⟩, hsupply, nofun, nofun, ?_, ?_,
      ?_, nofun,
      nofun, nofun⟩
    · exact fun v parent hv => by cases hv
    · exact fun p r hr => by cases hr
    · exact fun p r hr => by cases hr
  · intro s
    obtain ⟨config, env, uuid, transferId, folder, heq, -⟩ := h.node s
    rw [heq]
    rfl
  · exact h.distinct
  · intro s channel f hf
    rw [h.queue] at hf
    cases hf
  · intro s f hf
    rw [h.sent] at hf
    cases hf

/-! ## What the invariant says -/

/-- Clocks and lineage of one peer, against everything `cs` that was ever created. -/
structure Causal (cs : List Creation) (n : Node H) : Prop where
  /-- A version is created once. -/
  once : ∀ c ∈ cs, ∀ c' ∈ cs, c.versionId = c'.versionId → c = c'
  /-- Versions with a row or below one have been created. -/
  known : ∀ u v, Climb.StrictlyAbove n.db.parentOf v u →
    (∃ c ∈ cs, c.versionId = u) ∧ ∃ c ∈ cs, c.versionId = v
  /-- A proper ancestor was created with a smaller clock. -/
  clocks : ∀ u v, Climb.StrictlyAbove n.db.parentOf v u → ∀ c ∈ cs, ∀ d ∈ cs,
    c.versionId = u → d.versionId = v → c.logicalClock < d.logicalClock
  /-- Two versions never share clock and origin. -/
  stamps : ∀ c ∈ cs, ∀ c' ∈ cs, c.logicalClock = c'.logicalClock →
    c.originDeviceId = c'.originDeviceId → c.versionId = c'.versionId
  /-- No version is its own ancestor. -/
  acyclic : ∀ v, ¬ Climb.StrictlyAbove n.db.parentOf v v
  /-- A stored record has a row, and carries the stamp its version was created with. -/
  records : ∀ p r, n.db.records.find p = some r → ∃ parent,
    n.db.lineage.find r.versionId = some parent ∧ recordCreationOf r parent ∈ cs
  /-- So the error of `SendManifest` about a missing row does not occur. -/
  sends : (sendManifest n).1 ≠ .error (.runtimeError "local record has no version lineage")
  /-- The next clock is ahead of everything stored or received. -/
  next : ∀ observed clock db, n.db.advanceLogicalClock observed = .ok (clock, db) →
    (∀ p r, n.db.records.find p = some r → r.logicalClock < clock) ∧
      ∀ e ∈ n.trace.observed, e.logicalClock < clock

/-- With a row for every record a manifest is only rejected for its contents. -/
theorem rejects_manifestEntries {db : Database H} {rules : IgnoreRules}
    {records : List (FileRecord H)}
    (h : ∀ r ∈ records, ∃ parent, db.lineage.find r.versionId = some parent) :
    Rejects (manifestEntries db rules records) := by
  induction records with
  | nil => exact .ok _
  | cons r records ih =>
    have hrest := ih fun r' hr' => h r' (List.mem_cons_of_mem _ hr')
    refine (IgnoreRules.rejects_isIgnored _ _).bind fun ignored _ => .ite hrest ?_
    refine .bind ?_ fun _ _ => hrest.bind fun _ _ => .ok _
    obtain ⟨parent, hrow⟩ := h r List.mem_cons_self
    rw [manifestEntry, hrow]
    exact .ite (.error _) (.ok _)

theorem sendManifest_error {others past : List Creation} {n : Node H}
    (h : n.NodeInv others past) {e : Error} (he : (sendManifest n).1 = .error e) :
    e.IsInvalidArgument := by
  have hrows : ∀ r ∈ n.db.listFileRecords,
      ∃ parent, n.db.lineage.find r.versionId = some parent := by
    intro r hr
    obtain ⟨p, hp⟩ := Database.mem_listFileRecords.mp hr
    obtain ⟨-, parent, hrow, -⟩ := h.records p r hp
    exact ⟨parent, hrow⟩
  have hwp : Exec.Wp sendManifest (fun _ _ => True) (fun e _ => e.IsInvalidArgument) n := by
    rw [sendManifest, Exec.wp_bind, Exec.wp_state]
    refine Exec.wp_ite (fun _ => trivial) fun _ => ?_
    rw [Exec.wp_bind, Exec.wp_update, Exec.wp_bind]
    refine Exec.wp_check (IgnoreRules.rejects_load _) fun rules _ => ?_
    rw [Exec.wp_bind]
    refine Exec.wp_check (rejects_manifestEntries hrows) fun entries _ => ?_
    rw [Exec.wp_bind]
    refine Exec.wp_check (Rejects.ite (.error _) (.ite (.ok _) (.error _))) fun _ _ => ?_
    trivial
  rw [Exec.Wp] at hwp
  rcases hm : sendManifest n with ⟨e' | u, n'⟩
  · rw [hm] at hwp he
    cases he
    exact hwp
  · rw [hm] at he
    cases he

/-- The invariant of one node is what the peers rely on. -/
theorem causal_of_nodeInv {others past : List Creation} {n : Node H}
    (h : n.NodeInv others past) : Causal (n.created others) n where
  once := h.history.unique
  known u v huv := by
    obtain ⟨c, hc, d, hd, hcv, hdv, -⟩ := h.clock_lt_of_strictlyAbove huv
    exact ⟨⟨c, hc, hcv⟩, d, hd, hdv⟩
  clocks u v huv c hc d hd hcv hdv := by
    obtain ⟨c', hc', d', hd', hcv', hdv', hlt⟩ := h.clock_lt_of_strictlyAbove huv
    obtain rfl := h.history.unique c hc c' hc' (hcv.trans hcv'.symm)
    obtain rfl := h.history.unique d hd d' hd' (hdv.trans hdv'.symm)
    exact hlt
  stamps c hc c' hc' hclock horigin :=
    congrArg Creation.versionId (h.history.stamps c hc c' hc' hclock horigin)
  acyclic := h.acyclic
  records p r hr := by
    obtain ⟨-, parent, hrow, hmem, -⟩ := h.records p r hr
    exact ⟨parent, hrow, hmem⟩
  sends he := sendManifest_error h he
  next observed clock db hadvance := by
    obtain ⟨hlt, -, -⟩ := advanceLogicalClock_le hadvance
    refine ⟨fun p r hr => ?_, fun e he => (h.observed e he).trans_lt hlt⟩
    obtain ⟨-, -, -, -, hle⟩ := h.records p r hr
    exact hle.trans_lt hlt

/-- The world can come about. -/
def Reachable (w : World H) : Prop := ∃ w₀ : World H, w₀.New ∧ ∃ actions, w = w₀.run actions

theorem Reachable.lamportInv {w : World H} (h : w.Reachable) : w.LamportInv := by
  obtain ⟨w₀, hnew, actions, rfl⟩ := h
  exact Run.run_invariant_all (I := LamportInv) (fun _ a hw => lamportInv_step hw a) actions
    (lamportInv_new hnew)

/-- **Clocks and lineage stay consistent in every run.**  Start two peers of a new task on any
folders and let them run in any order: scans of either kind, edits, policy changes, frames
delivered, lost or delivered again, storage failures and restarts.  In every state reached, on both
peers, ancestry follows the clocks, stamps are unique, the lineage is acyclic, every record has its
row, and the next clock is ahead of everything seen. -/
theorem causal_run {w : World H} (h : w.New) (actions : List (Action H)) (s : Side) :
    Causal ((w.run actions).created s) ((w.run actions).node s) := by
  have hreach : (w.run actions).Reachable := ⟨w, h, actions, rfl⟩
  exact causal_of_nodeInv (hreach.lamportInv.node s)

theorem supply_sample (s : Side) : Supply fun i => s.deviceId ++ List.replicate i '0'.toUInt8 := by
  refine ⟨fun i j hij => ?_, fun i => ?_⟩
  · simpa using congrArg List.length hij
  · cases s <;> exact List.cons_ne_nil _ _

/-- The sample peers are new, whatever is in their folders. -/
theorem new_sampleWorld (a b : Folder) : (sampleWorld a b).New := by
  refine ⟨fun s => ?_, fun _ _ => rfl, fun _ => rfl, fun s => ?_⟩
  · cases s
    · exact ⟨_, _, _, _, _, rfl, supply_sample .a⟩
    · exact ⟨_, _, _, _, _, rfl, supply_sample .b⟩
  · have hids : Side.a.deviceId ≠ Side.b.deviceId := by decide +kernel
    cases s
    · exact ⟨hids, fun i j hij => absurd (List.cons.inj hij).1 (by decide)⟩
    · exact ⟨hids.symm, fun i j hij => absurd (List.cons.inj hij).1 (by decide)⟩

/-! ### A file that both peers have written

`a` writes `f` and sends it, `b` empties it, and `a` adds a second file.  The version of `b` is then
the record of `f` at `a`, and the first version is above it in the lineage of both. -/

/-- A folder with the empty files `f` and `g`. -/
def twoFiles : Folder :=
  .plain (fileFolder.tree.insert (ascii "g") (.file [])) (by decide +kernel) []

/-- The sample peers meet; the manifest of `a`, the request of `b` for the file and its one chunk
are delivered, and then the manifest of `b`. -/
def writtenTwice : List (Action Bytes) :=
  connect ++
    [.call .a sampleEnvironment (.edit byteFolder), .call .a sampleEnvironment .refreshLocal,
      .deliver .b sampleEnvironment .control, .deliver .a sampleEnvironment .control,
      .call .a sampleEnvironment .pump, .deliver .b sampleEnvironment .bulk,
      .call .b sampleEnvironment (.edit fileFolder), .call .b sampleEnvironment .refreshLocal,
      .deliver .a sampleEnvironment .control, .call .a sampleEnvironment (.edit twoFiles),
      .call .a sampleEnvironment .performScan]

/-- The sample peers after that. -/
def bothWrote : World Bytes := (sampleWorld (.empty []) (.empty [])).run writtenTwice

/-- The record of `f` at `a` is the version of `b`, made on top of the version of `a`, whose clock
is smaller; and the file that `a` has added since has a clock ahead of both. -/
theorem causal_bothWrote :
    (∀ s, Causal (bothWrote.created s) (bothWrote.node s)) ∧
      (∀ s, ((bothWrote.node s).db.records.find (ascii "f")).map
          (fun r => (r.versionId, r.originDeviceId, r.logicalClock)) =
        some (ascii "b", ascii "b", 3)) ∧
      (∀ s, Climb.StrictlyAbove (bothWrote.node s).db.parentOf (ascii "b") (ascii "a")) ∧
      (∃ c ∈ bothWrote.created .a, c.versionId = ascii "a" ∧ c.originDeviceId = ascii "a" ∧
        c.logicalClock < 3) ∧
      ((bothWrote.node .a).db.records.find (ascii "g")).map FileRecord.logicalClock = some 5 := by
  have hcausal : ∀ s, Causal (bothWrote.created s) (bothWrote.node s) := fun s =>
    causal_run (new_sampleWorld _ _) writtenTwice s
  have hrecords : ∀ s, ((bothWrote.node s).db.records.find (ascii "f")).map
      (fun r => (r.versionId, r.originDeviceId, r.logicalClock)) =
        some (ascii "b", ascii "b", 3) := by
    intro s
    cases s <;> decide +kernel
  have habove : ∀ s, Climb.StrictlyAbove (bothWrote.node s).db.parentOf (ascii "b")
    (ascii "a") := by
    intro s
    refine Relation.TransGen.single ?_
    cases s <;> decide +kernel
  refine ⟨hcausal, hrecords, habove, ?_, by decide +kernel⟩
  -- the first version was created, and the clocks of the two are ordered by the result itself
  obtain ⟨⟨c, hc, hversion⟩, -⟩ := (hcausal .a).known _ _ (habove .a)
  obtain ⟨r, hr, hfields⟩ := Option.map_eq_some_iff.mp (hrecords .a)
  simp only [Prod.mk.injEq] at hfields
  obtain ⟨parent, -, hcreated⟩ := (hcausal .a).records _ r hr
  have hlt := (hcausal .a).clocks _ _ (habove .a) c hc _ hcreated hversion hfields.1
  have horigin : ∀ c ∈ bothWrote.created .a, c.versionId = ascii "a" →
      c.originDeviceId = ascii "a" := by decide +kernel
  refine ⟨c, hc, hversion, horigin c hc hversion, ?_⟩
  rw [← hfields.2.2]
  exact hlt

end World

end VeritasSync
