import VeritasSync.Lib.Run
import VeritasSync.Sync.Recorders

/-!
# Scans that others overtake

`PerformScan` of the runtime holds the database lock twice: when it reads the records a scan starts
from, and when it reconciles what it has seen.  Between the two it walks the folder without any
lock, so remote commits, manifests, refreshes, other scans and the user get in between, and the
walk may see some files as they were and others as they have become.

Here the three parts are steps of their own, any number of scans are under way at once, and
everything else that can happen to the node may happen between them.

## What is here

* `Scans.System.step` — the parts of a scan, and whatever else happens.
* `performScan_eq_finishScan` — a scan that nothing overtakes is the `performScan` of the node.
* `reconcile_adds` — the parents of all the versions that one reconciliation records.
* `stale_scans_discarded` — a scan records something only if every path still has the version it
  had when the scan began, so that no recorded version has a younger parent.

The guard of the source compares the versions of all records before and after the walk.  It might
seem to be too strict, since one remote commit anywhere in the task discards a scan of all of it,
but it is the reason why a walk that mixes two states of the folder can do no harm: either nothing
was committed meanwhile and what the walk saw are edits of the user, or the scan is repeated.
-/

set_option autoImplicit false

namespace VeritasSync

variable {H : Type} [ContentHash H]

namespace Scans

/-! ## The parts of a scan -/

/-- What `PerformScan` reads before its walk. -/
structure Baseline (H : Type) where
  records : List (FileRecord H)
  policyHash : H

/-- The first locked part of `PerformScan`. -/
def readBaseline (n : Node H) : Except Error (Baseline H) := do
  let policyHash ← n.rulesHash
  pure ⟨n.db.listFileRecords, policyHash⟩

/-- The walk reaches one path: what is there now, unless it is a symbolic link or ignored.

Whether the walk goes into a directory is decided when it comes to it, and the directory may have
become a link, or one that may not be listed, by the time the walk reaches what lies below.  So any
path may be reached here, whatever is above it now. -/
def visit (rules : IgnoreRules) (mtime : Path → Int) (folder : Folder) (p : Path)
    (snapshot : List (SnapshotEntry H)) : Except Error (List (SnapshotEntry H)) :=
  if p ∈ folder.links then .ok snapshot
  else
    match folder.tree.find p with
    | none => .ok snapshot
    | some node => do
      let ignored ← rules.isIgnored p
      pure (if ignored then snapshot else snapshot ++ [Folder.snapshotEntry mtime p node])

/-- What the walk hands over: sorted, and without conflict copies. -/
def collected (snapshot : List (SnapshotEntry H)) : List (SnapshotEntry H) :=
  (snapshot.insertionSort fun a b => a.relativePath ≤ b.relativePath).filter fun entry =>
    !isConflictPath entry.relativePath

/-- The second locked part of `PerformScan` up to the call of `SnapshotReconciler::Apply`: whether
there is one. -/
def verdict (baseline : Baseline H) (n : Node H) : Except Error Bool := do
  let diskHash ← n.rulesHash
  if n.policyPending ∨ baseline.policyHash ≠ diskHash then pure false
  else if n.db.currentIgnorePolicyRevision.any fun policy => policy.contentHash ≠ diskHash then
    throw (.runtimeError "bidirectional ignore policy changed outside negotiated editor")
  else
    pure (decide (baseline.records.map FileRecord.versionId =
      n.db.listFileRecords.map FileRecord.versionId))

/-- The second locked part of `PerformScan`. -/
def finishScan (baseline : Baseline H) (snapshot : List (SnapshotEntry H)) : NodeM H Unit := do
  let apply ← Exec.check (verdict baseline)
  Exec.when (apply = true) (Node.applySnapshot snapshot)

/-! ## Scans under way -/

/-- Where one call of `PerformScan` is. -/
inductive Phase (H : Type)
  | idle
  /-- Behind the first lock. -/
  | begun (baseline : Baseline H)
  /-- In the walk, with the entries it has collected. -/
  | walking (baseline : Baseline H) (rules : IgnoreRules) (snapshot : List (SnapshotEntry H))

/-- A node and the scans under way. -/
structure System (H : Type) where
  node : Node H
  scan : Nat → Phase H

/-- One part of a scan, or anything else. -/
inductive Action (H : Type)
  /-- Remote frames, refreshes and everything else the node does under the database lock. -/
  | event (e : Event H)
  /-- A scan by hand. -/
  | scanTask (env : Environment) (deviceId : DeviceId)
  /-- The user changes the folder, the rule file included. -/
  | edit (folder : Folder)
  | begin (i : Nat)
  | load (i : Nat)
  | visit (i : Nat) (mtime : Path → Int) (p : Path)
  | finish (i : Nat) (env : Environment)

namespace System

/-- Scan `i` goes on to a phase. -/
def goTo (s : System H) (i : Nat) (phase : Phase H) : System H :=
  { s with scan := Function.update s.scan i phase }

/-- The scan `i` reads its baseline. -/
def begin (s : System H) (i : Nat) : System H :=
  match s.scan i, readBaseline s.node with
  | .idle, .ok baseline => s.goTo i (.begun baseline)
  | _, _ => s

/-- The scan `i` loads the rules for its walk; an exception ends it. -/
def load (s : System H) (i : Nat) : System H :=
  match s.scan i with
  | .begun baseline =>
    match s.node.folder.loadRules with
    | .ok rules => s.goTo i (.walking baseline rules [])
    | .error _ => s.goTo i .idle
  | _ => s

/-- The walk of scan `i` reaches a path. -/
def visit (s : System H) (i : Nat) (mtime : Path → Int) (p : Path) : System H :=
  match s.scan i with
  | .walking baseline rules snapshot =>
    match Scans.visit rules mtime s.node.folder p snapshot with
    | .ok snapshot => s.goTo i (.walking baseline rules snapshot)
    | .error _ => s.goTo i .idle
  | _ => s

/-- The walk of scan `i` is over. -/
def finish (s : System H) (i : Nat) (env : Environment) : System H :=
  match s.scan i with
  | .walking baseline _ snapshot =>
    { s.goTo i .idle with
      node := (finishScan baseline (collected snapshot) { s.node with env := env }).2 }
  | _ => s

/-- **One step.**  A restart ends every scan. -/
def step (s : System H) : Action H → System H
  | .event .restart => ⟨s.node.restart, fun _ => .idle⟩
  | .event e => { s with node := s.node.perform e }
  | .scanTask env deviceId =>
    { s with node := (Node.scanTask deviceId { s.node with env := env }).2 }
  | .edit folder => { s with node := { s.node with folder := folder } }
  | .begin i => s.begin i
  | .load i => s.load i
  | .visit i mtime p => s.visit i mtime p
  | .finish i env => s.finish i env

/-! ## A scan that nothing overtakes -/

section Alone

variable {s : System H} {i : Nat}

omit [ContentHash H] in
@[simp] theorem goTo_node (phase : Phase H) : (s.goTo i phase).node = s.node := rfl

omit [ContentHash H] in
@[simp] theorem goTo_scan_self (phase : Phase H) : (s.goTo i phase).scan i = phase := by
  simp [goTo]

omit [ContentHash H] in
theorem goTo_scan_of_ne {j : Nat} (h : i ≠ j) (phase : Phase H) :
    (s.goTo j phase).scan i = s.scan i := by
  simp [goTo, h]

omit [ContentHash H] in
@[simp] theorem goTo_goTo (phase phase' : Phase H) :
    (s.goTo i phase).goTo i phase' = s.goTo i phase' := by
  simp [goTo]

/-- The walk over a list of entries of the folder collects what `ManifestScanner::Scan` does. -/
theorem run_visits {baseline : Baseline H} {rules : IgnoreRules} {mtime : Path → Int}
    {entries : List (Path × FsNode)} {found scanned : List (SnapshotEntry H)} {s : System H}
    (hentries : ∀ e ∈ entries, s.node.folder.tree.find e.1 = some e.2 ∧ e.1 ∉ s.node.folder.links)
    (hscanned : Folder.scanEntries rules mtime entries = .ok scanned)
    (hscan : s.scan i = .walking baseline rules found) :
    Run.run step s (entries.map fun e => .visit i mtime e.1) =
      s.goTo i (.walking baseline rules (found ++ scanned)) := by
  induction entries generalizing s found scanned with
  | nil =>
    cases hscanned
    rw [List.append_nil, ← hscan, goTo, Function.update_eq_self]
    rfl
  | cons e entries ih =>
    obtain ⟨p, node⟩ := e
    obtain ⟨ignored, hignored, hrest⟩ := ok_of_bind hscanned
    obtain ⟨scanned', hscanned', hrest⟩ := ok_of_bind hrest
    cases hrest
    obtain ⟨hfind, hlinks⟩ := hentries (p, node) List.mem_cons_self
    have hvisit : Scans.visit rules mtime s.node.folder p found = .ok
        (if ignored then found else found ++ [Folder.snapshotEntry mtime p node]) := by
      simp only [Scans.visit, if_neg hlinks, hfind, hignored]
      rfl
    have hstep : s.step (.visit i mtime p) = s.goTo i (.walking baseline rules
        (if ignored then found else found ++ [Folder.snapshotEntry mtime p node])) := by
      simp only [step, visit, hscan, hvisit]
    have hrest := ih (s := s.step (.visit i mtime p))
      (by rw [hstep]; exact fun e he => hentries e (List.mem_cons_of_mem _ he)) hscanned'
      (by rw [hstep]; exact goTo_scan_self _)
    rw [List.map_cons, Run.run_cons, hrest, hstep, goTo_goTo]
    cases ignored with
    | true => rfl
    | false => simp

end Alone

end System

/-- A sorted walk is handed over as it is, but for the conflict copies. -/
theorem localSnapshot_of_scan {n : Node H} {rules : IgnoreRules} {scanned : List (SnapshotEntry H)}
    (hrules : n.folder.loadRules = .ok rules)
    (hscanned : n.folder.scan rules n.env.mtime = .ok scanned) :
    n.localSnapshot = .ok (collected scanned) := by
  have hsorted := Folder.sorted_scanEntries n.folder.sorted_listed hscanned
  rw [Node.localSnapshot, hrules]
  change (n.folder.scan rules n.env.mtime).bind _ = _
  rw [hscanned, collected, List.Pairwise.insertionSort_eq (hsorted.imp le_of_lt)]
  rfl

/-- **A scan that nothing overtakes** does what `performScan` does in one step.  This is what makes
it right to have the scan as one step in the other modules. -/
theorem performScan_eq_finishScan {n : Node H} {baseline : Baseline H}
    {snapshot : List (SnapshotEntry H)} (hbaseline : readBaseline n = .ok baseline)
    (hsnapshot : n.localSnapshot = .ok snapshot) :
    Node.performScan n = finishScan baseline snapshot n := by
  obtain ⟨diskHash, hhash, hbaseline⟩ := ok_of_bind hbaseline
  cases hbaseline
  have hverdict : verdict ⟨n.db.listFileRecords, diskHash⟩ n =
      if n.policyPending then .ok false
      else if n.db.currentIgnorePolicyRevision.any fun policy => policy.contentHash ≠ diskHash then
        .error (.runtimeError "bidirectional ignore policy changed outside negotiated editor")
      else .ok true := by
    rw [verdict, hhash]
    change (if n.policyPending = true ∨ diskHash ≠ diskHash then Except.ok false else _) = _
    simp only [ne_eq, not_true_eq_false, or_false, decide_true]
    rfl
  rw [Node.performScan, finishScan, Exec.bind_apply_ok (Exec.check_apply_ok hhash),
    Exec.bind_apply_ok (Exec.check_apply_ok hsnapshot), Exec.bind_apply, Exec.state_apply,
    Exec.bind_apply, Exec.check_apply, hverdict]
  dsimp only
  by_cases hpending : n.policyPending = true
  · rw [if_pos hpending, if_pos hpending]
    rfl
  · rw [if_neg hpending, if_neg hpending]
    split
    · rfl
    · rfl

/-- The steps of a whole scan, over every path that the walk comes to, are one `performScan`. -/
theorem run_undisturbed (s : System H) (i : Nat) (env : Environment) (hidle : s.scan i = .idle)
    {baseline : Baseline H} {rules : IgnoreRules} {scanned : List (SnapshotEntry H)}
    (hbaseline : readBaseline s.node = .ok baseline)
    (hrules : s.node.folder.loadRules = .ok rules)
    (hscanned : s.node.folder.scan rules env.mtime = .ok scanned) :
    (Run.run System.step s (.begin i :: .load i ::
      (s.node.folder.listed.map fun e => .visit i env.mtime e.1) ++ [.finish i env])).node =
      s.node.perform (.call env .performScan) := by
  have hbegin : s.step (.begin i) = s.goTo i (.begun baseline) := by
    simp only [System.step, System.begin, hidle, hbaseline]
  have hload : (s.goTo i (.begun baseline)).step (.load i) =
      s.goTo i (.walking baseline rules []) := by
    simp only [System.step, System.load, System.goTo_scan_self, System.goTo_node, hrules,
      System.goTo_goTo]
  have hmem : ∀ e ∈ (s.goTo i (.walking baseline rules [])).node.folder.listed,
      (s.goTo i (.walking baseline rules [])).node.folder.tree.find e.1 = some e.2 ∧
        e.1 ∉ (s.goTo i (.walking baseline rules [])).node.folder.links := by
    intro e he
    obtain ⟨hfind, hshown⟩ := Folder.mem_listed.mp he
    exact ⟨hfind, fun hlink => hshown (.inr (.inl hlink))⟩
  have hwalk := System.run_visits (s := s.goTo i (.walking baseline rules []))
    (i := i) hmem hscanned
    (System.goTo_scan_self _)
  rw [System.goTo_goTo, List.nil_append] at hwalk
  have hfinish : ((s.goTo i (.walking baseline rules scanned)).step (.finish i env)).node =
      (finishScan baseline (collected scanned) { s.node with env := env }).2 := by
    simp only [System.step, System.finish, System.goTo_scan_self, System.goTo_node]
  rw [List.cons_append, List.cons_append, Run.run_cons, hbegin, Run.run_cons, hload,
    Run.run_append, ← System.goTo_node (s := s) (i := i) (.walking baseline rules []), hwalk,
    Run.run_cons, Run.run_nil, hfinish]
  have hsnapshot := localSnapshot_of_scan (n := { s.node with env := env }) hrules hscanned
  rw [← performScan_eq_finishScan (n := { s.node with env := env }) hbaseline hsnapshot]
  rfl

/-! ## The parents of what a reconciliation records -/

/-- The second database has new versions, each with the parent that `previous` has for its path,
and no other lineage rows. -/
def Adds (previous : Path → Option VersionId) (db db' : Database H) : Prop :=
  ∃ new, db'.minted = db.minted ++ new ∧
    (∀ c ∈ new, c.parentVersionId = previous c.relativePath) ∧
    ∀ v, db'.lineage.find v = db.lineage.find v ∨
      ∃ c ∈ new, c.versionId = v ∧ db'.lineage.find v = some c.parentVersionId

section Adds

variable {previous : Path → Option VersionId} {db db' db'' : Database H}

omit [ContentHash H] in
theorem Adds.refl (previous : Path → Option VersionId) (db : Database H) : Adds previous db db :=
  ⟨[], (List.append_nil _).symm, by simp, fun _ => Or.inl rfl⟩

omit [ContentHash H] in
theorem Adds.trans (h : Adds previous db db') (h' : Adds previous db' db'') :
    Adds previous db db'' := by
  obtain ⟨new, hminted, hparent, hlineage⟩ := h
  obtain ⟨new', hminted', hparent', hlineage'⟩ := h'
  refine ⟨new ++ new', by rw [hminted', hminted, List.append_assoc], fun c hc => ?_, fun v => ?_⟩
  · exact (List.mem_append.mp hc).elim (hparent c) (hparent' c)
  · rcases hlineage' v with heq | ⟨c, hc, hv, heq⟩
    · rcases hlineage v with hold | ⟨c, hc, hv, hnew⟩
      · exact Or.inl (heq.trans hold)
      · exact Or.inr ⟨c, List.mem_append_left _ hc, hv, heq.trans hnew⟩
    · exact Or.inr ⟨c, List.mem_append_right _ hc, hv, heq⟩

omit [ContentHash H] in
/-- Records do not matter. -/
theorem Adds.congr (h : Adds previous db db') {records : OrdMap Path (FileRecord H)} :
    Adds previous db { db' with records := records } := h

omit [ContentHash H] in
theorem adds_recordNewVersion {record : FileRecord H}
    (h : recordNewVersion db (previous record.relativePath) record = .ok db') :
    Adds previous db db' := by
  obtain ⟨⟨clock, db1⟩, hclock, hrest⟩ := ok_of_bind h
  obtain ⟨db2, hcreate, hupsert⟩ := ok_of_bind hrest
  obtain ⟨-, -, rfl⟩ := Node.advanceLogicalClock_le hclock
  obtain ⟨-, lineage, rfl, hfind⟩ := Database.recordCreation_eq_ok hcreate
  obtain ⟨-, rfl⟩ := Database.upsertFileRecord_eq_ok hupsert
  refine ⟨[_], rfl, fun c hc => ?_, fun v => ?_⟩
  · rw [List.mem_singleton.mp hc]
  · by_cases hv : v = record.versionId
    · exact Or.inr ⟨_, List.mem_singleton_self _, hv.symm, by rw [hfind, if_pos hv]⟩
    · exact Or.inl (by rw [hfind, if_neg hv])

omit [ContentHash H] in
theorem adds_reconcileUpserts {records : OrdMap Path (FileRecord H)} {upserts : List (FileRecord H)}
    (h : reconcileUpserts true records.find db upserts = .ok db') :
    Adds (fun p => (records.find p).map FileRecord.versionId) db db' := by
  induction upserts generalizing db with
  | nil =>
    cases h
    exact Adds.refl _ _
  | cons record upserts ih =>
    obtain ⟨db1, hstep, h⟩ := ok_of_bind h
    refine Adds.trans ?_ (ih h)
    rw [reconcileUpsert] at hstep
    split at hstep
    · exact adds_recordNewVersion hstep
    · obtain ⟨-, rfl⟩ := Database.upsertFileRecord_eq_ok hstep
      exact (Adds.refl _ db).congr

omit [ContentHash H] in
theorem adds_reconcileDeletes {records : OrdMap Path (FileRecord H)} {config : ReconcileConfig}
    {newId : Nat → VersionId} {paths : List Path} {used used' : Nat}
    (h : reconcileDeletes true config records.find newId used db paths = .ok (db', used')) :
    Adds (fun p => (records.find p).map FileRecord.versionId) db db' := by
  induction paths generalizing db used with
  | nil =>
    cases h
    exact Adds.refl _ _
  | cons path paths ih =>
    obtain ⟨db1, hstep, h⟩ := ok_of_bind h
    exact Adds.trans (adds_recordNewVersion hstep) (ih h)

/-- **What `SnapshotReconciler::Apply` records** succeeds what its path had.  The parent of each new
version is the one its path had when the reconciliation began. -/
theorem reconcile_adds {snapshot : List (SnapshotEntry H)} {config : ReconcileConfig}
    {newId : Nat → VersionId} {used used' : Nat} {result : ReconcileResult}
    (h : reconcile true db snapshot config newId used = .ok ((result, used'), db')) :
    Adds (Node.versionsOf db) db db' := by
  obtain ⟨diff, db1, -, hupserts, hdeletes⟩ := reconcile_eq_ok h
  exact (adds_reconcileUpserts hupserts).trans (adds_reconcileDeletes hdeletes)

end Adds

/-! ## The guard

The source compares two lists of version identifiers in path order, without the paths.  This is
enough where a version belongs to one path: then equal lists are equal maps. -/

/-- Every version belongs to one path, its owner. -/
def UniqueVersions (owner : VersionId → Path) (db : Database H) : Prop :=
  ∀ e ∈ db.records.entries, owner e.2.versionId = e.1

instance (owner : VersionId → Path) (db : Database H) : Decidable (UniqueVersions owner db) :=
  inferInstanceAs (Decidable (∀ e ∈ db.records.entries, owner e.2.versionId = e.1))

omit [ContentHash H] in
/-- Equal sequences of versions, in path order, mean equal versions at every path. -/
theorem versionsOf_eq_of_map_eq {owner : VersionId → Path} {db db' : Database H}
    (howner : UniqueVersions owner db) (howner' : UniqueVersions owner db')
    (heq : db.listFileRecords.map FileRecord.versionId =
      db'.listFileRecords.map FileRecord.versionId) :
    Node.versionsOf db = Node.versionsOf db' := by
  rw [Database.listFileRecords, Database.listFileRecords, List.map_map, List.map_map] at heq
  exact funext fun p => OrdMap.find_map_eq_of_values howner howner' heq p

theorem verdict_eq_true {baseline : Baseline H} {n : Node H} (h : verdict baseline n = .ok true) :
    baseline.records.map FileRecord.versionId =
      n.db.listFileRecords.map FileRecord.versionId := by
  obtain ⟨diskHash, -, h⟩ := ok_of_bind h
  split at h
  · cases h
  split at h
  · cases h
  · exact of_decide_eq_true (Except.ok.inj h)

theorem adds_applySnapshot (snapshot : List (SnapshotEntry H)) (n : Node H) :
    Adds (Node.versionsOf n.db) n.db (Node.applySnapshot snapshot n).2.db := by
  refine Exec.of_wp (I := fun n' : Node H => Adds (Node.versionsOf n.db) n.db n'.db) ?_
  rw [Node.applySnapshot, Exec.wp_bind, Exec.wp_state, Exec.wp_bind]
  have hrefl := Adds.refl (Node.versionsOf n.db) n.db
  exact Node.wp_dbGet hrefl (fun _ _ => hrefl) fun _ _ hdb => reconcile_adds hdb

/-- The second locked part leaves the database alone unless the guard lets it call `Apply`. -/
theorem finishScan_db {baseline : Baseline H} (snapshot : List (SnapshotEntry H)) {n : Node H}
    (h : verdict baseline n ≠ .ok true) : (finishScan baseline snapshot n).2.db = n.db := by
  rw [finishScan, Exec.bind_apply, Exec.check_apply]
  cases hverdict : verdict baseline n with
  | error e => rfl
  | ok apply =>
    cases apply with
    | false => rfl
    | true => exact absurd hverdict h

theorem finishScan_of_verdict {baseline : Baseline H} (snapshot : List (SnapshotEntry H))
    {n : Node H} (h : verdict baseline n = .ok true) :
    finishScan baseline snapshot n = Node.applySnapshot snapshot n := by
  rw [finishScan, Exec.bind_apply_ok (Exec.check_apply_ok h)]
  rfl

/-! ## Over a whole scan -/

/-- The baseline of a scan under way. -/
def Phase.baseline : Phase H → Option (Baseline H)
  | .idle => none
  | .begun baseline => some baseline
  | .walking baseline _ _ => some baseline

/-- The scan `i`, if it is under way, has these records as its baseline. -/
def From (i : Nat) (records : List (FileRecord H)) (s : System H) : Prop :=
  ∀ baseline, (s.scan i).baseline = some baseline → baseline.records = records

namespace From

variable {i : Nat} {records : List (FileRecord H)} {s : System H}

omit [ContentHash H] in
/-- A scan goes on without a new baseline. -/
theorem goTo (h : From i records s) {j : Nat} {phase : Phase H}
    (hphase : ∀ baseline, phase.baseline = some baseline → (s.scan j).baseline = some baseline) :
    From i records (s.goTo j phase) := by
  intro baseline hbaseline
  by_cases hj : i = j
  · subst hj
    rw [System.goTo_scan_self] at hbaseline
    exact h baseline (hphase baseline hbaseline)
  · rw [System.goTo_scan_of_ne hj] at hbaseline
    exact h baseline hbaseline

theorem begin (hidle : s.scan i = .idle) : From i s.node.db.listFileRecords (s.begin i) := by
  intro baseline hbaseline
  rw [System.begin, hidle] at hbaseline
  cases hread : readBaseline s.node with
  | error e =>
    rw [hread] at hbaseline
    simp [hidle, Phase.baseline] at hbaseline
  | ok read =>
    rw [hread] at hbaseline
    simp only [System.goTo_scan_self, Phase.baseline, Option.some.injEq] at hbaseline
    obtain ⟨diskHash, -, hread⟩ := ok_of_bind hread
    cases hread
    rw [← hbaseline]

theorem step (h : From i records s) {a : Action H} (ha : a ≠ .begin i) :
    From i records (s.step a) := by
  cases a with
  | event e =>
    cases e with
    | call env c => exact h
    | receive env channel frame => exact h
    | restart => exact fun _ hbaseline => absurd hbaseline (by simp [System.step, Phase.baseline])
  | scanTask env deviceId => exact h
  | edit folder => exact h
  | begin j =>
    have hj : i ≠ j := fun heq => ha (heq ▸ rfl)
    rw [System.step, System.begin]
    split
    · intro baseline hbaseline
      rw [System.goTo_scan_of_ne hj] at hbaseline
      exact h baseline hbaseline
    · exact h
  | load j =>
    rw [System.step, System.load]
    split
    · next baseline hscan =>
      split
      · exact h.goTo fun _ hb => by rwa [hscan]
      · exact h.goTo fun _ hb => absurd hb (by simp [Phase.baseline])
    · exact h
  | visit j mtime p =>
    rw [System.step, System.visit]
    split
    · next baseline rules snapshot hscan =>
      split
      · exact h.goTo fun _ hb => by rwa [hscan]
      · exact h.goTo fun _ hb => absurd hb (by simp [Phase.baseline])
    · exact h
  | finish j env =>
    rw [System.step, System.finish]
    split
    · exact h.goTo fun _ hb => absurd hb (by simp [Phase.baseline])
    · exact h

end From

/-- **Stale scans are discarded.**  A scan begins in `s`, anything happens in between, and the walk
ends with `snapshot`.  If the guard then lets `SnapshotReconciler::Apply` run, every path has the
version it had when the scan began; if it does not, nothing is recorded; and whatever is recorded
succeeds the version that its path had when the scan began. -/
theorem stale_scans_discarded (s : System H) (i : Nat) (others : List (Action H))
    (env : Environment) (owner : VersionId → Path) {baseline : Baseline H} {rules : IgnoreRules}
    {snapshot : List (SnapshotEntry H)} (hidle : s.scan i = .idle)
    (hothers : .begin i ∉ others)
    (hscan : (Run.run System.step s (.begin i :: others)).scan i = .walking baseline rules snapshot)
    (howner : UniqueVersions owner s.node.db)
    (howner' : UniqueVersions owner (Run.run System.step s (.begin i :: others)).node.db) :
    let before := Run.run System.step s (.begin i :: others)
    let after := before.step (.finish i env)
    (verdict baseline { before.node with env := env } = .ok true →
      Node.versionsOf before.node.db = Node.versionsOf s.node.db) ∧
    (verdict baseline { before.node with env := env } ≠ .ok true →
      after.node.db = before.node.db) ∧
    Adds (Node.versionsOf s.node.db) before.node.db after.node.db := by
  intro before after
  have hrecords : baseline.records = s.node.db.listFileRecords := by
    have hfrom : From i s.node.db.listFileRecords before :=
      Run.run_invariant (P := fun _ a => a ≠ .begin i) (fun _ _ ha h => h.step ha) others _
        (Run.along_of_forall (P := fun a => a ≠ Action.begin i) fun a ha heq => hothers (heq ▸ ha))
        (From.begin hidle)
    exact hfrom baseline (by rw [hscan]; rfl)
  have hafter : after.node =
      (finishScan baseline (collected snapshot) { before.node with env := env }).2 := by
    simp only [after, System.step, System.finish, show before.scan i = _ from hscan]
  have hsame : verdict baseline { before.node with env := env } = .ok true →
      Node.versionsOf before.node.db = Node.versionsOf s.node.db := fun hverdict => by
    have heq := verdict_eq_true hverdict
    rw [hrecords] at heq
    exact (versionsOf_eq_of_map_eq howner howner' heq).symm
  refine ⟨hsame, fun hverdict => ?_, ?_⟩
  · rw [hafter, finishScan_db _ hverdict]
  · by_cases hverdict : verdict baseline { before.node with env := env } = .ok true
    · rw [hafter, finishScan_of_verdict _ hverdict, ← hsame hverdict]
      exact adds_applySnapshot _ _
    · rw [hafter, finishScan_db _ hverdict]
      exact Adds.refl _ _

/-- The file `f` with one byte. -/
def grownFolder : Folder :=
  .plain (OrdMap.empty.insert (ascii "f") (.file [1])) (by decide +kernel) []

/-- A sample node that tracks the empty file `f`, without a scan under way. -/
def trackingSystem : System Bytes :=
  ⟨(Side.a.sample fileFolder).perform (.call sampleEnvironment .performScan), fun _ => .idle⟩

/-- The file grows before the walk reaches it. -/
def grows : List (Action Bytes) :=
  [.load 0, .edit grownFolder, .visit 0 (fun _ => 0) (ascii "f")]

/-- The grown file is recorded, and its new version succeeds the one it had at the beginning. -/
theorem stale_scans_discarded_grows :
    let before := Run.run System.step trackingSystem (.begin 0 :: grows)
    Node.versionsOf before.node.db = Node.versionsOf trackingSystem.node.db ∧
      Adds (Node.versionsOf trackingSystem.node.db) before.node.db
        (before.step (.finish 0 sampleEnvironment)).node.db ∧
      (before.step (.finish 0 sampleEnvironment)).node.db.minted ≠ before.node.db.minted := by
  intro before
  have hwalking : (Run.run System.step trackingSystem (.begin 0 :: grows)).scan 0 =
      .walking ⟨trackingSystem.node.db.listFileRecords, []⟩ ⟨[]⟩
        [⟨ascii "f", true, 1, 0, some [1]⟩] := by rfl
  have h := stale_scans_discarded trackingSystem 0 grows sampleEnvironment (fun _ => ascii "f")
    rfl (by simp [grows]) hwalking (by decide +kernel) (by decide +kernel)
  exact ⟨h.1 (by decide +kernel), h.2.2, by decide +kernel⟩

/-- A scan that another one overtakes records nothing. -/
example :
    let before := Run.run System.step trackingSystem (.begin 0 :: grows ++
      [.event (.call sampleEnvironment .performScan)])
    (before.step (.finish 0 sampleEnvironment)).node.db.records.entries.map Prod.snd =
      before.node.db.listFileRecords := by
  decide +kernel

end Scans

end VeritasSync
