import VeritasSync.Storage.Database

/-!
# Resolving a received version

`VersionResolver::Resolve` decides what a received record means for the local record of the same
path: a known successor is applied, a known ancestor is ignored, and anything else is a conflict
whose winner both peers have to agree on without talking to each other.

The two peers run the same function with `local` and `remote` exchanged.  `resolve_symm` says that
the two answers are mirror images, which is what the agreement rests on.  The ingredients are that
ancestry is antisymmetric on a table whose chains end, that the tie-break is a strict order on the
pair (clock, origin device), and that both sides compute the conflict path from the losing record.

One comment in the source promises more than the code does.  A conflict is said to preserve the
other version as well if that is a directory, but only a losing file is moved to the conflict path;
`resolve` returns the path in both cases, and what is done with it is up to its caller.
-/

set_option autoImplicit false

namespace VeritasSync

variable {H : Type}

/-- `sync::VersionedRecord`: a record from a peer, with the parent of its version. -/
structure VersionedRecord (H : Type) where
  record : FileRecord H
  parentVersionId : Option VersionId

/-- `sync::VersionResolutionAction`: the remote record takes the path, the local one keeps it, or
the two are in conflict. -/
inductive VersionResolutionAction where
  | applyRemote
  | keepLocal
  | conflict
  deriving DecidableEq, Repr

/-- `sync::VersionResolution`: what to do, and for a conflict who wins and where the other version
goes. -/
structure VersionResolution where
  action : VersionResolutionAction
  remoteWins : Bool
  conflictPath : Path
  deriving DecidableEq

/-- `IsDirectory`.  A tombstone is none. -/
def isDirectory (record : FileRecord H) : Bool := record.kind = .directory

/-- `RemoteSortsBeforeLocal`: the order that decides conflicts, by clock and then by origin. -/
def remoteSortsBeforeLocal (remote loc : FileRecord H) : Bool :=
  if remote.logicalClock ≠ loc.logicalClock then remote.logicalClock < loc.logicalClock
  else remote.originDeviceId < loc.originDeviceId

/-- `std::isalnum` in the C locale, `-` or `_`. -/
def safeDeviceByte (c : UInt8) : Bool :=
  ('0'.toUInt8 ≤ c && c ≤ '9'.toUInt8) || ('A'.toUInt8 ≤ c && c ≤ 'Z'.toUInt8) ||
    ('a'.toUInt8 ≤ c && c ≤ 'z'.toUInt8) || c == '-'.toUInt8 || c == '_'.toUInt8

/-- `SafeDeviceId`: the device as it can be part of a file name. -/
def safeDeviceId (value : DeviceId) : Bytes :=
  if value = [] then ascii "unknown"
  else value.map fun c => if safeDeviceByte c then c else '_'.toUInt8

/-- The name under which the losing record of a conflict is kept. -/
def conflictName (name : Bytes) (losing : FileRecord H) : Bytes :=
  stem name ++ conflictMarker ++ safeDeviceId losing.originDeviceId ++ [dot] ++
    decimal losing.logicalClock ++ extension name

/-- `VersionResolver::ConflictPath`: the path of the copy, next to the original, with device and
clock in its name. -/
def conflictPath (originalPath : Path) (losing : FileRecord H) : Except Error Path :=
  if originalPath = [] ∨ losing.originDeviceId = [] then
    .error (.invalidArgument "conflict path identity is invalid")
  else
    let name := fileName originalPath
    if name = [] ∨ name = [dot] ∨ name = [dot, dot] then
      .error (.invalidArgument "conflict path is invalid")
    else .ok (joinPath (parentPath originalPath) (conflictName name losing))

/-- The tie-break of a conflict: a directory keeps the formal path against anything else, and
otherwise the smaller (clock, origin device) does. -/
def remoteWins (remote loc : FileRecord H) : Bool :=
  if isDirectory remote != isDirectory loc then isDirectory remote
  else remoteSortsBeforeLocal remote loc

/-- `VersionResolver::Resolve`: a remote record against the local one, if there is one. -/
def resolve (db : Database H) (taskId : Bytes) (loc : Option (FileRecord H))
    (remote : VersionedRecord H) : Except Error VersionResolution := do
  if taskId = [] ∨ remote.record.taskId ≠ taskId ∨ remote.record.relativePath = [] ∨
      remote.record.versionId = [] then
    throw (.invalidArgument "version resolution input is invalid")
  match loc with
  | none => pure ⟨.applyRemote, true, []⟩
  | some loc =>
    if loc.taskId ≠ taskId ∨ loc.relativePath ≠ remote.record.relativePath then
      throw (.invalidArgument "version records do not identify the same path")
    if loc.versionId = remote.record.versionId then
      return ⟨.keepLocal, false, []⟩
    if ← db.isVersionAncestor loc.versionId remote.record.versionId then
      return ⟨.applyRemote, true, []⟩
    if ← db.isVersionAncestor remote.record.versionId loc.versionId then
      return ⟨.keepLocal, false, []⟩
    let wins := remoteWins remote.record loc
    let losing := if wins then loc else remote.record
    pure ⟨.conflict, wins, ← conflictPath remote.record.relativePath losing⟩

/-- Of the database, the decision only looks at the lineage table. -/
theorem resolve_congr {db db' : Database H} (h : db'.lineage = db.lineage) :
    resolve db' = resolve db := by
  have hparent : db'.parentOf = db.parentOf := by
    funext v
    rw [Database.parentOf, Database.parentOf, h]
  have hancestor : db'.isVersionAncestor = db.isVersionAncestor := by
    funext u v
    rw [Database.isVersionAncestor, Database.isVersionAncestor, hparent]
  funext taskId loc remote
  unfold resolve
  rw [hancestor]

/-- The version a resolution leaves at the formal path. -/
def VersionResolution.winner (r : VersionResolution) (loc remote : FileRecord H) : VersionId :=
  if r.remoteWins then remote.versionId else loc.versionId

/-! ## The four outcomes

Between comparable records the ancestry of the two versions decides, and there are four
possibilities: the remote one is on top, the local one is, neither is, or they are the same.  The
lemmas say which answer belongs to which. -/

/-- The two records name the same path of the task, and the names are not empty. -/
structure Comparable (taskId : Bytes) (loc remote : FileRecord H) : Prop where
  task : taskId ≠ []
  localTask : loc.taskId = taskId
  remoteTask : remote.taskId = taskId
  path : loc.relativePath = remote.relativePath
  pathNonempty : remote.relativePath ≠ []
  localVersion : loc.versionId ≠ []
  remoteVersion : remote.versionId ≠ []

theorem Comparable.symm {taskId : Bytes} {loc remote : FileRecord H}
    (h : Comparable taskId loc remote) : Comparable taskId remote loc where
  task := h.task
  localTask := h.remoteTask
  remoteTask := h.localTask
  path := h.path.symm
  pathNonempty := h.path.symm ▸ h.pathNonempty
  localVersion := h.remoteVersion
  remoteVersion := h.localVersion

section Outcomes

variable {db : Database H} {taskId : Bytes} {loc remote : FileRecord H}
  {parent : Option VersionId}

/-- On comparable records of different versions the checks pass and the ancestry decides. -/
theorem resolve_eq (h : Comparable taskId loc remote) (hv : loc.versionId ≠ remote.versionId) :
    resolve db taskId (some loc) ⟨remote, parent⟩ = (do
      if ← db.isVersionAncestor loc.versionId remote.versionId then
        return ⟨.applyRemote, true, []⟩
      if ← db.isVersionAncestor remote.versionId loc.versionId then
        return ⟨.keepLocal, false, []⟩
      let losing := if remoteWins remote loc then loc else remote
      pure ⟨.conflict, remoteWins remote loc, ← conflictPath remote.relativePath losing⟩) := by
  have hin : ¬ (taskId = [] ∨ remote.taskId ≠ taskId ∨ remote.relativePath = [] ∨
      remote.versionId = []) := by
    simp [h.task, h.remoteTask, h.pathNonempty, h.remoteVersion]
  have hsame : ¬ (loc.taskId ≠ taskId ∨ loc.relativePath ≠ remote.relativePath) := by
    simp [h.localTask, h.path]
  simp only [resolve, if_neg hin, if_neg hsame, if_neg hv]

theorem resolve_same (h : Comparable taskId loc remote) (hv : loc.versionId = remote.versionId) :
    resolve db taskId (some loc) ⟨remote, parent⟩ = .ok ⟨.keepLocal, false, []⟩ := by
  have hin : ¬ (taskId = [] ∨ remote.taskId ≠ taskId ∨ remote.relativePath = [] ∨
      remote.versionId = []) := by
    simp [h.task, h.remoteTask, h.pathNonempty, h.remoteVersion]
  have hsame : ¬ (loc.taskId ≠ taskId ∨ loc.relativePath ≠ remote.relativePath) := by
    simp [h.localTask, h.path]
  simp only [resolve, if_neg hin, if_neg hsame, if_pos hv]
  rfl

theorem resolve_successor (h : Comparable taskId loc remote)
    (hv : loc.versionId ≠ remote.versionId)
    (hanc : db.isVersionAncestor loc.versionId remote.versionId = .ok true) :
    resolve db taskId (some loc) ⟨remote, parent⟩ = .ok ⟨.applyRemote, true, []⟩ := by
  rw [resolve_eq h hv, hanc]
  rfl

theorem resolve_ancestor (h : Comparable taskId loc remote)
    (hv : loc.versionId ≠ remote.versionId)
    (hno : db.isVersionAncestor loc.versionId remote.versionId = .ok false)
    (hanc : db.isVersionAncestor remote.versionId loc.versionId = .ok true) :
    resolve db taskId (some loc) ⟨remote, parent⟩ = .ok ⟨.keepLocal, false, []⟩ := by
  rw [resolve_eq h hv, hno, hanc]
  rfl

theorem resolve_concurrent (h : Comparable taskId loc remote)
    (hv : loc.versionId ≠ remote.versionId)
    (hno : db.isVersionAncestor loc.versionId remote.versionId = .ok false)
    (hno' : db.isVersionAncestor remote.versionId loc.versionId = .ok false) {path : Path}
    (hpath : conflictPath remote.relativePath (if remoteWins remote loc then loc else remote)
      = .ok path) :
    resolve db taskId (some loc) ⟨remote, parent⟩
      = .ok ⟨.conflict, remoteWins remote loc, path⟩ := by
  rw [resolve_eq h hv, hno, hno']
  simp only [Bool.false_eq_true, if_false, Except.bind, bind, pure, Except.pure, hpath]

end Outcomes

/-- A version is applied exactly if it is another one and the walk finds the local version above
it. -/
theorem resolve_eq_applyRemote_iff {db : Database H} {taskId : Bytes} {loc remote : FileRecord H}
    {parent : Option VersionId} (h : Comparable taskId loc remote) :
    resolve db taskId (some loc) ⟨remote, parent⟩ = .ok ⟨.applyRemote, true, []⟩ ↔
      loc.versionId ≠ remote.versionId ∧
        Climb.climb db.parentOf loc.versionId Database.ancestryLimit remote.versionId
          = some true := by
  by_cases hv : loc.versionId = remote.versionId
  · rw [resolve_same h hv]
    simp [hv]
  rw [resolve_eq h hv, ← Database.isVersionAncestor_eq_true_iff h.localVersion h.remoteVersion]
  refine ⟨fun heq => ⟨hv, ?_⟩, fun h => by rw [h.2]; rfl⟩
  obtain ⟨successor, hsuccessor, heq⟩ := ok_of_bind heq
  cases successor with
  | true => exact hsuccessor
  | false =>
    -- every other outcome keeps the local version or is a conflict
    rw [if_neg Bool.false_ne_true] at heq
    obtain ⟨ancestor, -, heq⟩ := ok_of_bind heq
    cases ancestor with
    | true =>
      rw [if_pos rfl] at heq
      cases heq
    | false =>
      rw [if_neg Bool.false_ne_true] at heq
      obtain ⟨path, -, heq⟩ := ok_of_bind heq
      cases heq

/-- A version the local one descends from is never applied. -/
theorem resolve_of_above {db : Database H} {taskId : Bytes} {loc : FileRecord H}
    {remote : VersionedRecord H} {resolution : VersionResolution}
    (hacyclic : ∀ v, ¬ Climb.StrictlyAbove db.parentOf v v)
    (habove : Climb.Above db.parentOf loc.versionId remote.record.versionId)
    (h : resolve db taskId (some loc) remote = .ok resolution) :
      resolution.action = .keepLocal := by
  by_cases hin : taskId = [] ∨ remote.record.taskId ≠ taskId ∨ remote.record.relativePath = [] ∨
      remote.record.versionId = []
  · simp only [resolve, if_pos hin] at h
    cases h
  by_cases hpath : loc.taskId ≠ taskId ∨ loc.relativePath ≠ remote.record.relativePath
  · simp only [resolve, if_neg hin, if_pos hpath] at h
    cases h
  by_cases hne : loc.versionId = remote.record.versionId
  · simp only [resolve, if_neg hin, if_neg hpath, if_pos hne] at h
    cases h
    rfl
  simp only [resolve, if_neg hin, if_neg hpath, if_neg hne] at h
  obtain ⟨successor, hsuccessor, h⟩ := ok_of_bind h
  have hno : successor ≠ true := fun htrue => Climb.not_above_of_above hacyclic hne habove
    ((Database.isVersionAncestor_eq_ok hsuccessor).mp htrue)
  rw [if_neg hno] at h
  obtain ⟨ancestor, hancestor, h⟩ := ok_of_bind h
  rw [if_pos ((Database.isVersionAncestor_eq_ok hancestor).mpr habove)] at h
  cases h
  rfl

/-! ## Symmetry

The two peers call the function with the roles exchanged.  If the lineage is the same on both sides,
exchanging the roles exchanges the first two outcomes and leaves a conflict a conflict; the
tie-break then has to point to the same version from both sides, which it does because it compares
clocks and origins, and these are properties of the versions and not of the peers. -/

/-- The tie-break is antisymmetric on records that differ in clock or origin. -/
theorem remoteWins_symm {a b : FileRecord H}
    (h : (a.logicalClock, a.originDeviceId) ≠ (b.logicalClock, b.originDeviceId)) :
    remoteWins a b = !remoteWins b a := by
  rw [remoteWins, remoteWins]
  by_cases hd : isDirectory a = isDirectory b
  · -- same side of the directory rule: the strict order on (clock, origin) decides
    simp only [hd, bne_self_eq_false, Bool.false_eq_true, if_false, remoteSortsBeforeLocal]
    by_cases hc : a.logicalClock = b.logicalClock
    · have ho : a.originDeviceId ≠ b.originDeviceId := fun ho => h (by rw [hc, ho])
      simp only [hc, ne_eq, not_true_eq_false, if_false]
      rcases lt_or_gt_of_ne ho with hlt | hlt
      · simp [hlt, lt_asymm hlt]
      · simp [hlt, lt_asymm hlt]
    · simp only [ne_eq, hc, Ne.symm hc, not_false_eq_true, if_true]
      rcases lt_or_gt_of_ne hc with hlt | hlt
      · simp [hlt, Nat.lt_asymm hlt]
      · simp [hlt, Nat.lt_asymm hlt]
  · cases ha : isDirectory a <;> cases hb : isDirectory b <;> simp_all

/-- The conflict path of a stored record exists. -/
theorem conflictPath_eq_ok {p : Path} (losing : FileRecord H)
    (hp : Database.validateRelativePath p = .ok ()) (ho : losing.originDeviceId ≠ []) :
    conflictPath p losing
      = .ok (joinPath (parentPath p) (conflictName (fileName p) losing)) := by
  have hne : p ≠ [] := by
    rintro rfl
    cases hp
  obtain ⟨h1, h2, h3⟩ := Database.fileName_of_validateRelativePath hp
  rw [conflictPath, if_neg (not_or.mpr ⟨hne, ho⟩)]
  simp only [if_neg (not_or.mpr ⟨h1, not_or.mpr ⟨h2, h3⟩⟩)]

/-- **Resolution is symmetric.**  Two peers that know the same lineage and hold the records `a`
and `b` of one path — files, directories or tombstones — come to mirror-image conclusions: one
applies exactly when the other keeps, both see a conflict or neither does, and in a conflict
exactly one of them takes the other's version, they agree on which version that is and on the path
the losing one is kept under. -/
theorem resolve_symm (db db' : Database H) (taskId : Bytes) (a b : FileRecord H)
    (pa pb : Option VersionId) (hshared : db'.lineage = db.lineage)
    (hchains : ∀ v, Climb.Ends db.parentOf Database.ancestryLimit v)
    (ha : Database.validateFileRecord a = .ok ()) (hb : Database.validateFileRecord b = .ok ())
    (hat : a.taskId = taskId) (hbt : b.taskId = taskId) (hpath : a.relativePath = b.relativePath)
    (hversion : a.versionId ≠ b.versionId)
    (hclock : (a.logicalClock, a.originDeviceId) ≠ (b.logicalClock, b.originDeviceId)) :
    ∃ r r', resolve db taskId (some a) ⟨b, pb⟩ = .ok r ∧
      resolve db' taskId (some b) ⟨a, pa⟩ = .ok r' ∧
      (r.action = .applyRemote ↔ r'.action = .keepLocal) ∧
      (r.action = .keepLocal ↔ r'.action = .applyRemote) ∧
      (r.action = .conflict ↔ r'.action = .conflict) ∧
      (r.action = .conflict → r.remoteWins = !r'.remoteWins ∧
        r.winner a b = r'.winner b a ∧ r.conflictPath = r'.conflictPath) := by
  rw [resolve_congr hshared]
  obtain ⟨hat0, hav, hao, hap⟩ := Database.validateFileRecord_eq_ok ha
  obtain ⟨-, hbv, hbo, hbp⟩ := Database.validateFileRecord_eq_ok hb
  have hbne : b.relativePath ≠ [] := by
    intro h0
    rw [h0] at hbp
    cases hbp
  have hcmp : Comparable taskId a b := ⟨hat ▸ hat0, hat, hbt, hpath, hbne, hav, hbv⟩
  obtain ⟨ab, hab, habiff⟩ := Database.isVersionAncestor_of_ends hav hbv (hchains b.versionId)
  obtain ⟨ba, hba, hbaiff⟩ := Database.isVersionAncestor_of_ends hbv hav (hchains a.versionId)
  have hanti : ¬ (ab = true ∧ ba = true) := fun ⟨h1, h2⟩ =>
    Climb.not_above_of_above (fun v => (hchains v).not_strictlyAbove_self) (Ne.symm hversion)
      (habiff.mp h1) (hbaiff.mp h2)
  -- comparable versions: one answer is the other with the roles exchanged
  cases ab with
  | true =>
    have hba' : ba = false := by
      cases ba
      · rfl
      · exact absurd ⟨rfl, rfl⟩ hanti
    subst hba'
    exact ⟨_, _, resolve_successor hcmp hversion hab,
      resolve_ancestor hcmp.symm hversion.symm hba hab, by simp⟩
  | false =>
    cases ba with
    | true =>
      exact ⟨_, _, resolve_ancestor hcmp hversion hab hba,
        resolve_successor hcmp.symm hversion.symm hba, by simp⟩
    | false =>
      -- a conflict: both sides let the same version win
      have hwins : remoteWins a b = !remoteWins b a := remoteWins_symm hclock
      have hlosing : (if remoteWins b a then a else b) = if remoteWins a b then b else a := by
        rw [hwins]
        cases remoteWins b a <;> rfl
      have horigin : (if remoteWins b a then a else b).originDeviceId ≠ [] := by
        split
        · exact hao
        · exact hbo
      have hconf := conflictPath_eq_ok (if remoteWins b a then a else b) hbp horigin
      have hconf' := hconf
      rw [hlosing, ← hpath] at hconf'
      refine ⟨_, _, resolve_concurrent hcmp hversion hab hba hconf,
        resolve_concurrent hcmp.symm hversion.symm hba hab hconf', by simp, by simp, by simp, ?_⟩
      intro _
      refine ⟨?_, ?_, ?_⟩
      · show remoteWins b a = !remoteWins a b
        rw [hwins, Bool.not_not]
      · show (if remoteWins b a then b.versionId else a.versionId)
          = if remoteWins a b then a.versionId else b.versionId
        rw [hwins]
        cases remoteWins b a <;> rfl
      · show joinPath _ _ = joinPath _ _
        rw [hlosing, hpath]

/-- Two devices edit the file `f`, which both know as version `0`. -/
theorem resolve_symm_edited : ∃ (db : Database Bytes) (a b : FileRecord Bytes) (r r' : _),
    a.versionId = [1] ∧ b.versionId = [2] ∧
      resolve db [7] (some a) ⟨b, some [0]⟩ = .ok r ∧
      resolve db [7] (some b) ⟨a, some [0]⟩ = .ok r' ∧
      (r.action = .conflict → r.remoteWins = !r'.remoteWins ∧
        r.winner a b = r'.winner b a ∧ r.conflictPath = r'.conflictPath) := by
  let rows : OrdMap VersionId (Option VersionId) :=
    ((OrdMap.empty.insert [0] none).insert [1] (some [0])).insert [2] (some [0])
  let db : Database Bytes := { Database.empty with lineage := rows }
  let a : FileRecord Bytes := ⟨[7], ascii "f", .file, 1, 0, some [3], [1], ascii "a", 2, none⟩
  let b : FileRecord Bytes := ⟨[7], ascii "f", .file, 1, 0, some [4], [2], ascii "b", 2, none⟩
  have hup : ∀ v p, db.parentOf v = some p → p = [0] := by
    intro v p hp
    simp only [Database.parentOf, db, rows, OrdMap.find_insert] at hp
    split at hp
    · exact (Option.some.inj hp).symm
    split at hp
    · exact (Option.some.inj hp).symm
    split at hp
    · cases hp
    · cases hp
  have hroot : db.parentOf [0] = none := by decide +kernel
  have hends : ∀ v, Climb.Ends db.parentOf Database.ancestryLimit v := by
    intro v
    have hshort : Climb.Ends db.parentOf 2 v := by
      intro p hp q hq
      rw [hup v p hp, hroot] at hq
      cases hq
    refine hshort.mono ?_
    unfold Database.ancestryLimit
    decide
  obtain ⟨r, r', hr, hr', -, -, -, hconflict⟩ := resolve_symm db db [7] a b (some [0]) (some [0])
    rfl hends (by decide +kernel) (by decide +kernel) rfl rfl rfl (by decide +kernel)
    (by decide +kernel)
  exact ⟨db, a, b, r, r', rfl, rfl, hr, hr', hconflict⟩

end VeritasSync
