import VeritasSync.Storage.Glob
import VeritasSync.Storage.RuleMatching
import VeritasSync.Sync.Tombstones

/-!
# What a rule set keeps out of a snapshot

Two results about the ignore rules and the scanner.

The engine's own files stay out under every rule set: `isIgnored_engine_file`, and for the names
`SafeFileWriter` makes up, `scan_omits_partial_files`.

`IgnorePolicy::Preview` says what a change of the rules would do, from a walk of its own that asks
the built-in rules only and does not enter a directory they ignore.  `preview_predicts_scan` says
that its counts are those of two scans, one under each rule set, and that the deletions it warns of
are the tombstones the next scan of a one-way source records.

What is here:

* `buildInventory`, `preview` — `BuildInventory` and `Preview`;
* `inventory_eq` — not entering a directory changes nothing, since a built-in rule that matches a
  directory matches everything below it;
* `LeftBySourceScan` — the records a source scan leaves behind.

The file system prints a path the way `Normalize` does (`Folder.Named`).  The walk visits the
entries in path order here; where it stops early is the only thing the order decides.

## Why the preview is right

The preview and the scan are two different programs.  The preview walks the folder once and asks
both rule sets about every path it sees; a scan walks with one rule set and reads the files.  And
the preview does not enter what the built-in rules exclude, while the scan goes through everything
below and excludes it path by path.  That the two agree rests on one fact about the built-in rules
(a directory that they ignore has nothing below it that they do not) and on one about the rest (a
path is asked about once in either walk).
-/

set_option autoImplicit false

namespace VeritasSync

namespace IgnoreRules

/-! ## The engine's own files -/

/-- The names the built-in rules are about. -/
def IsEngineName (name : Bytes) : Prop :=
  name = ascii ".git" ∨ name = ascii ".veritasignore" ∨ ascii ".part" <:+ name

theorem matchesGlob_part {name : Bytes} (hname : slash ∉ name) (h : ascii ".part" <:+ name) :
    matchesGlob (ascii "*.part") name = true := by
  obtain ⟨w, rfl⟩ := h
  have hstar : matchesGlob (ascii "*.part") (w ++ ascii ".part") =
      (Token.star.tails (w ++ ascii ".part")).any (globMatches 5 (ascii ".part")) :=
    globMatches_cons 5 '*'.toUInt8 (ascii ".part") _
  rw [hstar, List.any_eq_true]
  have hnonempty : w ++ ascii ".part" ≠ [] := by simp [ascii]
  refine ⟨ascii ".part", (Token.mem_tails (t := .star) trivial).mpr
    ⟨fun _ => hnonempty, w, ?_, rfl⟩, by decide +kernel⟩
  exact fun hw => hname (List.mem_append_left _ hw)

theorem slash_notMem_of_mem_components {path name : Bytes} (h : name ∈ components path) :
    slash ∉ name := by
  obtain ⟨before, after, hat⟩ := mem_components_iff.mp h
  exact hat.free

/-- Every built-in rule is a plain name. -/
theorem isPlain_of_mem_defaults {rule : Rule} (h : rule ∈ defaults) : rule.IsPlain := by
  fin_cases h <;> decide +kernel

/-- A built-in rule ignores what has a component named like an engine file. -/
theorem defaults_match {path name : Bytes} (hname : name ∈ components path)
    (h : IsEngineName name) : ∃ rule ∈ defaults, ruleMatches rule path = true := by
  have hmatch : ∀ rule ∈ defaults, matchesGlob rule.pattern name = true →
      ∃ rule ∈ defaults, ruleMatches rule path = true := fun rule hrule hglob =>
    ⟨rule, hrule, (ruleMatches_plain (isPlain_of_mem_defaults hrule)).mpr ⟨name, hname, hglob⟩⟩
  rcases h with rfl | rfl | h
  · exact hmatch ⟨ascii ".git", false, false, true⟩ (by simp [defaults]) (by decide +kernel)
  · exact hmatch ⟨ascii ".veritasignore", false, false, false⟩ (by simp [defaults])
      (by decide +kernel)
  · exact hmatch ⟨ascii "*.part", false, false, false⟩ (by simp [defaults])
      (matchesGlob_part (slash_notMem_of_mem_components hname) h)

theorem ignores_engine_file (rules : IgnoreRules) {path name : Bytes}
    (hname : name ∈ components path) (h : IsEngineName name) : rules.ignores path = true :=
  (ignores_iff rules path).mpr (.inl (defaults_match hname h))

theorem isIgnored_eq_ok {rules : IgnoreRules} {value : Path} {ignored : Bool}
    (h : rules.isIgnored value = .ok ignored) :
    ∃ path, normalize value = .ok path ∧ ignored = rules.ignores path := by
  obtain ⟨path, hpath, h⟩ := ok_of_bind h
  exact ⟨path, hpath, (Except.ok.inj h).symm⟩

/-! ## Names that end in `.part` -/

theorem suffix_stripDotSlash (fuel : Nat) {path : Bytes} (h : ascii ".part" <:+ path) :
    ascii ".part" <:+ stripDotSlash fuel path := by
  induction fuel generalizing path with
  | zero => exact h
  | succ fuel ih =>
    rw [stripDotSlash]
    split
    · rename_i hdot
      refine ih ?_
      obtain ⟨w, rfl⟩ := h
      -- two bytes in front of the suffix, or the suffix would start with the separator
      match w, hdot with
      | [], hdot => exact absurd hdot (by decide)
      | [c], hdot => exact absurd (List.cons_prefix_cons.mp hdot).2 (by decide)
      | c :: d :: w, _ => exact ⟨w, rfl⟩
    · exact h

theorem suffix_normalize {value path : Path} (h : normalize value = .ok path)
    (hvalue : ascii ".part" <:+ value) : ascii ".part" <:+ path := by
  rw [normalize, unless_eq_ok] at h
  have hmap : ascii ".part" <:+ value.map fun c => if c = '\\'.toUInt8 then slash else c := by
    obtain ⟨w, rfl⟩ := hvalue
    rw [List.map_append]
    exact List.suffix_append _ _
  have hstrip := suffix_stripDotSlash
    (value.map fun c => if c = '\\'.toUInt8 then slash else c).length hmap
  obtain ⟨-, h⟩ := h
  simp only [unless_eq_ok] at h
  obtain ⟨-, -, -, h⟩ := h
  exact Except.ok.inj h ▸ hstrip

/-- A suffix without a separator is a suffix of the last component. -/
theorem exists_component_of_suffix {path part : Bytes} (hpart : slash ∉ part)
    (h : part <:+ path) : ∃ name ∈ components path, part <:+ name := by
  induction path using path_induction with
  | last path hfree =>
    exact ⟨path, by rw [components, List.splitOn_eq_singleton hfree]; simp, h⟩
  | cons first rest hfirst ih =>
    rw [components, List.splitOn_append_cons_self_of_not_mem hfirst]
    obtain ⟨name, hname, hsuffix⟩ := ih <| by
      rcases List.suffix_or_suffix_of_suffix h (List.suffix_append first (slash :: rest)) with h | h
      · rcases List.suffix_cons_iff.mp h with rfl | h
        · exact absurd List.mem_cons_self hpart
        · exact h
      · exact absurd (h.subset List.mem_cons_self) hpart
    exact ⟨name, List.mem_cons_of_mem _ hname, hsuffix⟩

/-- **No rule file can bring an engine file back.**  The built-in rules are asked first, and nothing
that comes later is asked when they say yes. -/
theorem isIgnored_engine_file {rules : IgnoreRules} {value path name : Path}
    (hpath : normalize value = .ok path) (hname : name ∈ components path)
    (h : IsEngineName name) : rules.isIgnored value = .ok true := by
  rw [isIgnored, hpath]
  exact congrArg Except.ok (rules.ignores_engine_file hname h)

/-- A path that ends in `.part` is ignored, whatever the rules. -/
theorem isIgnored_part {rules : IgnoreRules} {value : Path} {ignored : Bool}
    (h : rules.isIgnored value = .ok ignored) (hvalue : ascii ".part" <:+ value) :
    ignored = true := by
  obtain ⟨path, hpath, rfl⟩ := isIgnored_eq_ok h
  obtain ⟨name, hname, hsuffix⟩ :=
    exists_component_of_suffix (by decide) (suffix_normalize hpath hvalue)
  exact rules.ignores_engine_file hname (.inr (.inr hsuffix))

end IgnoreRules

/-- `MakePartPath`: where `WriteAtomically` writes a file before it is renamed. -/
def makePartPath (processId serial : Nat) (p : Path) : Path :=
  p ++ ascii ".veritassync." ++ decimal processId ++ ascii "." ++ decimal serial ++ ascii ".part"

namespace Folder

variable {H : Type} [ContentHash H]

/-- A scan takes no path that ends in `.part`. -/
theorem scan_omits_part {f : Folder} {rules : IgnoreRules} {mtime : Path → Int}
    {snapshot : List (SnapshotEntry H)} (h : f.scan rules mtime = .ok snapshot)
    {entry : SnapshotEntry H} (hentry : entry ∈ snapshot) :
    ¬ascii ".part" <:+ entry.relativePath := by
  obtain ⟨p, node, -, hignored, rfl⟩ := (mem_scanEntries h).mp hentry
  rw [snapshotEntry_relativePath]
  intro hpart
  cases IgnoreRules.isIgnored_part hignored hpart

/-- **Engine files are never announced**: what has a component `.git`, `.veritasignore` or one that
ends in `.part` is ignored under every rule text, and no scan has the partial files of any
destination. -/
theorem engine_files_stay_out :
    (∀ (text : Bytes) (rules : IgnoreRules), IgnoreRules.load text = .ok rules →
      ∀ value path name : Path, IgnoreRules.normalize value = .ok path → name ∈ components path →
        IgnoreRules.IsEngineName name → rules.isIgnored value = .ok true) ∧
    ∀ (f : Folder) (rules : IgnoreRules) (mtime : Path → Int) (snapshot : List (SnapshotEntry H)),
      f.scan rules mtime = .ok snapshot → ∀ entry ∈ snapshot, ∀ p : Path,
        entry.relativePath ≠ partPath p ∧
          ∀ processId serial, entry.relativePath ≠ makePartPath processId serial p := by
  refine ⟨fun _ rules _ value path name hpath hname h =>
    IgnoreRules.isIgnored_engine_file hpath hname h,
    fun f rules mtime snapshot hscan entry hentry p => ⟨fun h => ?_, fun processId serial h => ?_⟩⟩
  · exact scan_omits_part hscan hentry (h ▸ List.suffix_append _ _)
  · exact scan_omits_part hscan hentry (h ▸ List.suffix_append _ _)

/-- A rule text that asks for `.part` files back does not get them. -/
theorem engine_files_stay_out_negated :
    IgnoreRules.isIgnored ⟨[⟨ascii "*.part", true, false, false⟩]⟩ (ascii "a/x.part") =
      .ok true :=
  (engine_files_stay_out (H := Bytes)).1 (ascii "!*.part") _ (by decide +kernel) _
    (ascii "a/x.part") (ascii "x.part") (by decide +kernel) (by decide +kernel)
    (.inr (.inr ⟨ascii "x", rfl⟩))

end Folder

/-! ## `IgnorePolicy::Preview` -/

/-- `Inventory`: the files a walk has found so far. -/
structure Inventory where
  entries : List Path
  fileCount : Nat
  truncated : Bool
  deriving DecidableEq

/-- The walk of `BuildInventory`.  `pruned` are the directories it does not enter. -/
def inventoryFrom (maximumFiles : Nat) :
    List Path → Inventory → List (Path × FsNode) → Except Error Inventory
  | _, inventory, [] => .ok inventory
  | pruned, inventory, (p, node) :: rest =>
    if pruned.any fun d => IsBelow d p then inventoryFrom maximumFiles pruned inventory rest
    else do
      let ignored ← IgnoreRules.isIgnored ⟨[]⟩ p
      if ignored then
        inventoryFrom maximumFiles (if node = .directory then p :: pruned else pruned) inventory
          rest
      else if node = .directory then inventoryFrom maximumFiles pruned inventory rest
      else
        let inventory :=
          { inventory with entries := inventory.entries ++ [p],
                           fileCount := inventory.fileCount + 1 }
        if maximumFiles ≤ inventory.fileCount then pure { inventory with truncated := true }
        else inventoryFrom maximumFiles pruned inventory rest

/-- `BuildInventory`: it passes over symbolic links and over the directories it may not list, as the
scanner does. -/
def buildInventory (f : Folder) (maximumFiles : Nat) : Except Error Inventory :=
  inventoryFrom maximumFiles [] ⟨[], 0, false⟩ f.listed

/-- `storage::IgnorePreview`: what would change, in numbers and in a few samples. -/
structure IgnorePreview where
  scannedFiles : Nat
  truncated : Bool
  currentlyIgnored : Nat
  proposedIgnored : Nat
  newlyIgnored : Nat
  newlyIncluded : Nat
  trackedNewlyIgnored : Nat
  newlyIgnoredSamples : List Path
  newlyIncludedSamples : List Path
  trackedDeletionSamples : List Path
  deriving DecidableEq

/-- One more sample, if there is room for it. -/
def sample (maximumSamples : Nat) (samples : List Path) (p : Path) : List Path :=
  if samples.length < maximumSamples then samples ++ [p] else samples

/-- The body of the loop of `Preview`. -/
def previewEntry (current proposed : IgnoreRules) (tracked : List Path) (maximumSamples : Nat)
    (preview : IgnorePreview) (p : Path) : Except Error IgnorePreview := do
  let wasIgnored ← current.isIgnored p
  let willBeIgnored ← proposed.isIgnored p
  let preview :=
    { preview with currentlyIgnored := preview.currentlyIgnored + wasIgnored.toNat,
                   proposedIgnored := preview.proposedIgnored + willBeIgnored.toNat }
  if !wasIgnored && willBeIgnored then
    let preview :=
      { preview with
        newlyIgnored := preview.newlyIgnored + 1
        newlyIgnoredSamples := sample maximumSamples preview.newlyIgnoredSamples p }
    if tracked.contains p then
      pure { preview with
        trackedNewlyIgnored := preview.trackedNewlyIgnored + 1
        trackedDeletionSamples := sample maximumSamples preview.trackedDeletionSamples p }
    else pure preview
  else if wasIgnored && !willBeIgnored then
    pure { preview with
      newlyIncluded := preview.newlyIncluded + 1
      newlyIncludedSamples := sample maximumSamples preview.newlyIncludedSamples p }
  else pure preview

/-- `IgnorePolicy::Preview`: one walk of the folder under two sets of rules. -/
def preview (f : Folder) (currentRules proposedRules : Bytes) (trackedPaths : List Path)
    (maximumFiles maximumSamples : Nat) : Except Error IgnorePreview := do
  let current ← IgnoreRules.load currentRules
  let proposed ← IgnoreRules.load proposedRules
  let inventory ← buildInventory f maximumFiles
  inventory.entries.foldlM (previewEntry current proposed trackedPaths maximumSamples)
    ⟨inventory.fileCount, inventory.truncated, 0, 0, 0, 0, 0, [], [], []⟩

/-! ## The walk -/

/-- The file system prints every path of the folder the way the ignore rules want it. -/
def Folder.Named (f : Folder) : Prop :=
  ∀ p node, f.tree.find p = some node → IgnoreRules.normalize p = .ok p

/-- The files of a folder, in path order. -/
def filesOf (l : List (Path × FsNode)) : List Path :=
  (l.filter fun e => e.2 ≠ .directory).map Prod.fst

theorem IgnoreRules.isIgnored_of_normal {rules : IgnoreRules} {p : Path}
    (h : normalize p = .ok p) : rules.isIgnored p = .ok (rules.ignores p) := by
  rw [isIgnored, h]
  rfl

/-- What the built-in rules say of a directory they say of everything below it. -/
theorem IgnoreRules.builtIn_of_isBelow {d p : Path} (hd : ignores ⟨[]⟩ d = true)
    (hp : IsBelow d p) : ignores ⟨[]⟩ p = true := by
  obtain ⟨rule, hrule, hmatch⟩ := ((ignores_iff _ d).mp hd).resolve_right <| by
    rintro ⟨earlier, rule, later, h, -⟩
    exact absurd h (by simp)
  have hplain := isPlain_of_mem_defaults hrule
  obtain ⟨name, hname, hglob⟩ := (ruleMatches_plain hplain).mp hmatch
  exact (ignores_iff _ p).mpr (.inl ⟨rule, hrule,
    (ruleMatches_plain hplain).mpr ⟨name, mem_components_of_isBelow hp hname, hglob⟩⟩)

/-- What the built-in rules ignore every rule set ignores. -/
theorem IgnoreRules.ignores_of_builtIn (rules : IgnoreRules) {p : Path}
    (h : ignores ⟨[]⟩ p = true) : rules.ignores p = true := by
  refine (ignores_iff rules p).mpr (.inl (((ignores_iff _ p).mp h).resolve_right ?_))
  rintro ⟨earlier, rule, later, h, -⟩
  exact absurd h (by simp)

theorem filesOf_cons_directory (p : Path) (l : List (Path × FsNode)) :
    filesOf ((p, .directory) :: l) = filesOf l := rfl

theorem filesOf_cons_file (p : Path) (content : Bytes) (l : List (Path × FsNode)) :
    filesOf ((p, .file content) :: l) = p :: filesOf l := rfl

/-- **The walk finds the files no built-in rule ignores**, below the pruned directories too, if
there are fewer of them than the limit. -/
theorem inventoryFrom_eq {maximumFiles : Nat} {pruned : List Path} {inventory : Inventory}
    {l : List (Path × FsNode)} (hnames : ∀ e ∈ l, IgnoreRules.normalize e.1 = .ok e.1)
    (hpruned : ∀ d ∈ pruned, IgnoreRules.ignores ⟨[]⟩ d = true)
    (hlimit : inventory.fileCount +
      ((filesOf l).filter fun p => !IgnoreRules.ignores ⟨[]⟩ p).length < maximumFiles) :
    inventoryFrom maximumFiles pruned inventory l =
      let found := (filesOf l).filter fun p => !IgnoreRules.ignores ⟨[]⟩ p
      .ok ⟨inventory.entries ++ found, inventory.fileCount + found.length,
        inventory.truncated⟩ := by
  induction l generalizing pruned inventory with
  | nil => simp [inventoryFrom, filesOf]
  | cons e l ih =>
    obtain ⟨p, node⟩ := e
    obtain ⟨hname, hrest⟩ := List.forall_mem_cons.mp hnames
    -- a path the built-in rules ignore adds nothing, whatever it leads to
    have hskip : IgnoreRules.ignores ⟨[]⟩ p = true →
        ((filesOf ((p, node) :: l)).filter fun p => !IgnoreRules.ignores ⟨[]⟩ p) =
          (filesOf l).filter fun p => !IgnoreRules.ignores ⟨[]⟩ p := by
      intro hignored
      cases node with
      | directory => rfl
      | file content => rw [filesOf_cons_file, List.filter_cons_of_neg (by simp [hignored])]
    rw [inventoryFrom]
    split
    · rename_i hbelow
      obtain ⟨d, hd, hbelow⟩ := List.any_eq_true.mp hbelow
      rw [hskip (IgnoreRules.builtIn_of_isBelow (hpruned d hd) (of_decide_eq_true hbelow))]
        at hlimit ⊢
      exact ih hrest hpruned hlimit
    · rw [IgnoreRules.isIgnored_of_normal hname]
      show (if IgnoreRules.ignores ⟨[]⟩ p = true then _ else _) = _
      split
      · rename_i hignored
        rw [hskip hignored] at hlimit ⊢
        refine ih hrest ?_ hlimit
        split
        · exact List.forall_mem_cons.mpr ⟨hignored, hpruned⟩
        · exact hpruned
      · rename_i hignored
        cases node with
        | directory =>
          rw [if_pos rfl, filesOf_cons_directory]
          exact ih hrest hpruned hlimit
        | file content =>
          rw [filesOf_cons_file, List.filter_cons_of_pos (by simp [hignored]),
            List.length_cons] at hlimit
          rw [if_neg (by simp), filesOf_cons_file, List.filter_cons_of_pos (by simp [hignored])]
          simp only
          rw [if_neg (by omega), ih hrest hpruned (by simp only; omega)]
          simp only [List.append_assoc, List.singleton_append, List.length_cons]
          rw [Nat.add_right_comm, Nat.add_assoc]

theorem Folder.Named.forall_mem {f : Folder} (h : f.Named) :
    ∀ e ∈ f.listed, IgnoreRules.normalize e.1 = .ok e.1 := fun e he =>
  h e.1 e.2 (Folder.mem_listed.mp he).1

/-! ## The loop -/

/-- What the loop of `Preview` says about a list of files. -/
def previewOf (current proposed : IgnoreRules) (tracked : List Path) (maximumSamples : Nat)
    (start : IgnorePreview) (l : List Path) : IgnorePreview :=
  let ignored := l.filter fun p => !current.ignores p && proposed.ignores p
  let included := l.filter fun p => current.ignores p && !proposed.ignores p
  let deleted := ignored.filter fun p => tracked.contains p
  { start with
    currentlyIgnored := start.currentlyIgnored + l.countP current.ignores
    proposedIgnored := start.proposedIgnored + l.countP proposed.ignores
    newlyIgnored := start.newlyIgnored + ignored.length
    newlyIncluded := start.newlyIncluded + included.length
    trackedNewlyIgnored := start.trackedNewlyIgnored + deleted.length
    newlyIgnoredSamples := ignored.foldl (sample maximumSamples) start.newlyIgnoredSamples
    newlyIncludedSamples := included.foldl (sample maximumSamples) start.newlyIncludedSamples
    trackedDeletionSamples := deleted.foldl (sample maximumSamples) start.trackedDeletionSamples }

theorem previewLoop_eq {current proposed : IgnoreRules} {tracked : List Path}
    {maximumSamples : Nat} {l : List Path}
    (hnames : ∀ p ∈ l, IgnoreRules.normalize p = .ok p) (start : IgnorePreview) :
    l.foldlM (previewEntry current proposed tracked maximumSamples) start =
      .ok (previewOf current proposed tracked maximumSamples start l) := by
  induction l generalizing start with
  | nil => rfl
  | cons p l ih =>
    obtain ⟨hname, hrest⟩ := List.forall_mem_cons.mp hnames
    rw [List.foldlM_cons, previewEntry, IgnoreRules.isIgnored_of_normal hname,
      IgnoreRules.isIgnored_of_normal hname]
    cases hcurrent : current.ignores p with
    | false =>
      cases hproposed : proposed.ignores p with
      | false =>
        refine (ih hrest _).trans (congrArg Except.ok ?_)
        simp [previewOf, hcurrent, hproposed]
      | true =>
        by_cases htracked : p ∈ tracked
        · simp only [if_true, List.contains_iff_mem.mpr htracked]
          refine (ih hrest _).trans (congrArg Except.ok ?_)
          simp [previewOf, hcurrent, hproposed, htracked, Nat.add_assoc, Nat.add_comm 1]
        · have hcontains : ¬tracked.contains p = true := fun h =>
            htracked (List.contains_iff_mem.mp h)
          simp only [if_neg hcontains]
          refine (ih hrest _).trans (congrArg Except.ok ?_)
          simp [previewOf, hcurrent, hproposed, htracked, Nat.add_assoc, Nat.add_comm 1]
    | true =>
      cases hproposed : proposed.ignores p with
      | false =>
        refine (ih hrest _).trans (congrArg Except.ok ?_)
        simp [previewOf, hcurrent, hproposed, Nat.add_assoc, Nat.add_comm 1]
      | true =>
        refine (ih hrest _).trans (congrArg Except.ok ?_)
        simp [previewOf, hcurrent, hproposed, Nat.add_assoc, Nat.add_comm 1]

theorem foldl_sample (maximumSamples : Nat) {samples : List Path}
    (h : samples.length ≤ maximumSamples) (l : List Path) :
    l.foldl (sample maximumSamples) samples =
      samples ++ l.take (maximumSamples - samples.length) := by
  induction l generalizing samples with
  | nil => simp
  | cons p l ih =>
    rw [List.foldl_cons, sample]
    split
    · rename_i hroom
      have hlength : (samples ++ [p]).length ≤ maximumSamples := by
        rw [List.length_append, List.length_singleton]
        exact hroom
      have htake : maximumSamples - samples.length =
          maximumSamples - (samples ++ [p]).length + 1 := by
        rw [List.length_append, List.length_singleton]
        omega
      rw [ih hlength, htake, List.take_succ_cons, List.append_assoc]
      rfl
    · rename_i hfull
      have hzero : maximumSamples - samples.length = 0 := by omega
      rw [ih h, hzero, List.take_zero, List.take_zero]

/-- What a change of the rules adds to the ignored files and what it takes away. -/
theorem countP_ignores (current proposed : IgnoreRules) (l : List Path) :
    l.countP proposed.ignores +
        (l.filter fun p => current.ignores p && !proposed.ignores p).length =
      l.countP current.ignores +
        (l.filter fun p => !current.ignores p && proposed.ignores p).length := by
  induction l with
  | nil => rfl
  | cons p l ih =>
    cases hcurrent : current.ignores p <;> cases hproposed : proposed.ignores p <;>
      simp [hcurrent, hproposed] <;> omega

/-! ## What a scan reports -/

section Scans

variable {H : Type} [ContentHash H]

/-- The files of a snapshot. -/
def snapshotFiles (snapshot : List (SnapshotEntry H)) : List Path :=
  (snapshot.filter fun entry => entry.isFile).map SnapshotEntry.relativePath

theorem scanEntries_eq {rules : IgnoreRules} (mtime : Path → Int) {l : List (Path × FsNode)}
    (hnames : ∀ e ∈ l, IgnoreRules.normalize e.1 = .ok e.1) :
    Folder.scanEntries rules mtime l = .ok ((l.filter fun e => !rules.ignores e.1).map fun e =>
      (Folder.snapshotEntry mtime e.1 e.2 : SnapshotEntry H)) := by
  induction l with
  | nil => rfl
  | cons e l ih =>
    obtain ⟨hname, hrest⟩ := List.forall_mem_cons.mp hnames
    rw [Folder.scanEntries, IgnoreRules.isIgnored_of_normal hname, ih hrest]
    cases hignored : rules.ignores e.1 with
    | true => simp [hignored, bind, Except.bind, pure, Except.pure]
    | false => simp [hignored, bind, Except.bind, pure, Except.pure]

theorem scan_files {f : Folder} (hf : f.Named) {rules : IgnoreRules} {mtime : Path → Int}
    {snapshot : List (SnapshotEntry H)} (h : f.scan rules mtime = .ok snapshot) :
    snapshotFiles snapshot = (filesOf f.listed).filter fun p => !rules.ignores p := by
  rw [Folder.scan, scanEntries_eq mtime hf.forall_mem] at h
  obtain rfl := Except.ok.inj h
  generalize f.listed = l
  induction l with
  | nil => rfl
  | cons e l ih =>
    obtain ⟨p, node⟩ := e
    cases node with
    | directory =>
      rw [filesOf_cons_directory, ← ih]
      cases hignored : rules.ignores p <;> simp [snapshotFiles, Folder.snapshotEntry, hignored]
    | file content =>
      rw [filesOf_cons_file]
      cases hignored : rules.ignores p with
      | false =>
        have htail : ((p :: filesOf l).filter fun p => !rules.ignores p) =
            p :: (filesOf l).filter fun p => !rules.ignores p :=
          List.filter_cons_of_pos (by simp [hignored])
        rw [htail, ← ih]
        simp [snapshotFiles, Folder.snapshotEntry, hignored]
      | true =>
        have htail : ((p :: filesOf l).filter fun p => !rules.ignores p) =
            (filesOf l).filter fun p => !rules.ignores p :=
          List.filter_cons_of_neg (by simp [hignored])
        rw [htail, ← ih]
        simp [snapshotFiles, hignored]

theorem scan_ok {f : Folder} (hf : f.Named) (rules : IgnoreRules) (mtime : Path → Int) :
    ∃ snapshot : List (SnapshotEntry H), f.scan rules mtime = .ok snapshot :=
  ⟨_, scanEntries_eq mtime hf.forall_mem⟩

/-! ## The records a source scan leaves

What a preview calls a deletion is a record that the next scan turns into a tombstone.  Which
records there are is the doing of the scans before, so the statement starts from a database that a
scan of the source under the old rules has left. -/

/-- The records are those a scan of a one-way source left behind, under the given rules. -/
def LeftBySourceScan (rules : IgnoreRules) (db : Database H) : Prop :=
  ∃ (before : Database H) (f : Folder) (mtime : Path → Int) (snapshot : List (SnapshotEntry H))
    (config : ReconcileConfig) (newId : Nat → VersionId) (used used' : Nat)
    (result : ReconcileResult), before.Keyed ∧ f.scan rules mtime = .ok snapshot ∧
      reconcile false before snapshot config newId used = .ok ((result, used'), db)

omit [ContentHash H] in
/-- The first loop of an unversioned reconciliation. -/
theorem reconcileUpserts_records {previous : Path → Option (FileRecord H)}
    {upserts : List (FileRecord H)} {db db' : Database H}
    (h : reconcileUpserts false previous db upserts = .ok db') (p : Path) :
    ((∀ u ∈ upserts, u.relativePath ≠ p) ∧ db'.records.find p = db.records.find p) ∨
      ∃ u ∈ upserts, u.relativePath = p ∧ db'.records.find p = some u := by
  induction upserts generalizing db with
  | nil =>
    cases h
    exact .inl ⟨by simp, rfl⟩
  | cons u upserts ih =>
    obtain ⟨db1, hstep, h⟩ := ok_of_bind h
    rw [reconcileUpsert, if_neg (by simp)] at hstep
    have hinsert : db1.records = db.records.insert u.relativePath u := by
      obtain ⟨-, rfl⟩ := Database.upsertFileRecord_eq_ok hstep
      rfl
    rcases ih h with ⟨hnone, hfind⟩ | ⟨v, hv, hpath, hfind⟩
    · rw [hinsert, OrdMap.find_insert] at hfind
      by_cases hu : p = u.relativePath
      · rw [if_pos hu] at hfind
        exact .inr ⟨u, List.mem_cons_self, hu.symm, hfind⟩
      · rw [if_neg hu] at hfind
        exact .inl ⟨List.forall_mem_cons.mpr ⟨fun h => hu h.symm, hnone⟩, hfind⟩
    · exact .inr ⟨v, List.mem_cons_of_mem _ hv, hpath, hfind⟩

omit [ContentHash H] in
/-- The second loop of an unversioned reconciliation. -/
theorem reconcileDeletes_records {config : ReconcileConfig}
    {previous : Path → Option (FileRecord H)} {newId : Nat → VersionId} {paths : List Path}
    {db db' : Database H} {used used' : Nat}
    (h : reconcileDeletes false config previous newId used db paths = .ok (db', used'))
    (p : Path) :
    (p ∈ paths → Node.Tombstoned p db') ∧ (p ∉ paths → db'.records.find p = db.records.find p) := by
  induction paths generalizing db used with
  | nil =>
    cases h
    exact ⟨fun hp => absurd hp List.not_mem_nil, fun _ => rfl⟩
  | cons path paths ih =>
    obtain ⟨db1, hstep, h⟩ := ok_of_bind h
    rw [reconcileDelete, if_neg Bool.false_ne_true] at hstep
    have hinsert : db1.records = db.records.insert path (Database.tombstoneRecord config.taskId path
        (newId used) config.originDeviceId config.logicalClock config.nowMs) := by
      obtain ⟨-, rfl⟩ := Database.upsertFileRecord_eq_ok hstep
      rfl
    obtain ⟨hin, hout⟩ := ih h
    have hfind := OrdMap.find_insert db.records path p (Database.tombstoneRecord config.taskId
      path (newId used) config.originDeviceId config.logicalClock config.nowMs)
    rw [← hinsert] at hfind
    constructor
    · intro hp
      by_cases hmem : p ∈ paths
      · exact hin hmem
      · have hpath : p = path := (List.mem_cons.mp hp).resolve_right hmem
        rw [Node.Tombstoned, hout hmem, hfind, if_pos hpath]
        exact ⟨_, rfl, rfl⟩
    · intro hp
      rw [List.mem_cons, not_or] at hp
      rw [hout hp.2, hfind, if_neg hp.1]

/-- What a successful unversioned scan did to a path. -/
theorem reconcile_records {db db' : Database H} (hkeyed : db.Keyed)
    {snapshot : List (SnapshotEntry H)}
    (hsorted : Merge.Sorted SnapshotEntry.relativePath snapshot) {config : ReconcileConfig}
    {newId : Nat → VersionId} {used used' : Nat} {result : ReconcileResult}
    (h : reconcile false db snapshot config newId used = .ok ((result, used'), db')) (p : Path) :
    ((∀ entry ∈ snapshot, entry.relativePath ≠ p) →
      (∀ r, db.records.find p = some r → r.kind ≠ .tombstone → Node.Tombstoned p db') ∧
      ∀ r, db'.records.find p = some r → r.kind = .tombstone) ∧
    ((∃ entry ∈ snapshot, entry.relativePath = p) → ∀ r, db.records.find p = some r →
      r.kind ≠ .tombstone → ¬Node.Tombstoned p db') := by
  obtain ⟨diff, db1, hdiff, hupserts, hdeletes⟩ := reconcile_eq_ok h
  have hdiffOf := Node.diffOf_diffManifest hsorted hkeyed.sorted hdiff
  obtain ⟨hin, hout⟩ := reconcileDeletes_records hdeletes p
  have hrecord : ∀ r, db.records.find p = some r →
      r ∈ db.listFileRecords ∧ r.relativePath = p := fun r hr =>
    ⟨Database.mem_listFileRecords.mpr ⟨p, hr⟩, hkeyed p r hr⟩
  constructor
  · intro habsent
    -- the upserts write the paths of the snapshot only
    have hsame : db1.records.find p = db.records.find p := by
      rcases reconcileUpserts_records hupserts p with ⟨-, hsame⟩ | ⟨u, hu, hpath, -⟩
      · exact hsame
      · obtain ⟨entry, hentry, hof⟩ := Node.upsertOf_of_mem config newId hkeyed.sorted
          (hsorted.sublist hdiffOf.sublist) hsorted hu
        have hsource : u.relativePath = entry.relativePath := by
          cases hof with
          | touched _ hr => exact hr
          | fresh hr => exact hr
        exact absurd (hsource.symm.trans hpath) (habsent entry hentry)
    have hdeleted : ∀ r, db.records.find p = some r → r.kind ≠ .tombstone →
        p ∈ diff.deletedPaths := fun r hr hlive =>
      (hdiffOf.deleted p).mpr ⟨r, (hrecord r hr).1, (hrecord r hr).2, hlive, habsent⟩
    refine ⟨fun r hr hlive => hin (hdeleted r hr hlive), fun r hr => ?_⟩
    by_cases hmem : p ∈ diff.deletedPaths
    · obtain ⟨r', hr', htombstone⟩ := hin hmem
      rwa [Option.some.inj (hr.symm.trans hr')]
    · rw [hout hmem, hsame] at hr
      by_contra hlive
      exact hmem (hdeleted r hr hlive)
  · rintro ⟨entry, hentry, hpath⟩ r hr hlive ⟨t, ht, htombstone⟩
    have hmem : p ∉ diff.deletedPaths := fun hmem => by
      obtain ⟨-, -, -, -, habsent⟩ := (hdiffOf.deleted p).mp hmem
      exact habsent entry hentry hpath
    rw [hout hmem] at ht
    rcases reconcileUpserts_records hupserts p with ⟨-, hsame⟩ | ⟨u, hu, hupath, hfind⟩
    · rw [hsame, hr] at ht
      exact hlive (Option.some.inj ht ▸ htombstone)
    · obtain ⟨source, -, hof⟩ := Node.upsertOf_of_mem config newId hkeyed.sorted
        (hsorted.sublist hdiffOf.sublist) hsorted hu
      rw [hfind] at ht
      rw [← Option.some.inj ht] at htombstone
      cases hof with
      | @touched r' hr' hrpath =>
        -- the record that is only touched is the live one
        obtain ⟨q, hq⟩ := Database.mem_listFileRecords.mp hr'
        have hqp : q = p := ((hkeyed q r' hq).symm.trans hupath)
        rw [hqp, hr] at hq
        exact hlive (Option.some.inj hq ▸ htombstone)
      | fresh _ hkind => exact Node.kind_ne_tombstone source (hkind ▸ htombstone)

/-- What a source scan left behind has live records only for what its rules do not ignore. -/
theorem LeftBySourceScan.not_ignored {rules : IgnoreRules} {db : Database H}
    (h : LeftBySourceScan rules db) {p : Path} {r : FileRecord H}
    (hr : db.records.find p = some r) (hlive : r.kind ≠ .tombstone) :
    rules.isIgnored p = .ok false := by
  obtain ⟨before, f, mtime, snapshot, config, newId, used, used', result, hkeyed, hscan,
    hreconcile⟩ := h
  have hsorted := Folder.sorted_scanEntries f.sorted_listed hscan
  by_cases hmem : ∃ entry ∈ snapshot, entry.relativePath = p
  · obtain ⟨entry, hentry, rfl⟩ := hmem
    obtain ⟨q, node, -, hignored, rfl⟩ := (Folder.mem_scanEntries hscan).mp hentry
    rwa [Folder.snapshotEntry_relativePath]
  · push Not at hmem
    exact absurd (((reconcile_records hkeyed hsorted hreconcile p).1 hmem).2 r hr) hlive

omit [ContentHash H] in
theorem keyed_upsertFileRecord {db db' : Database H} (h : db.Keyed) {record : FileRecord H}
    (hstep : db.upsertFileRecord record = .ok db') : db'.Keyed := by
  obtain ⟨-, rfl⟩ := Database.upsertFileRecord_eq_ok hstep
  intro p r hr
  rw [OrdMap.find_insert] at hr
  split at hr
  · rename_i hp
    rw [hp, ← Option.some.inj hr]
  · exact h p r hr

theorem LeftBySourceScan.keyed {rules : IgnoreRules} {db : Database H}
    (h : LeftBySourceScan rules db) : db.Keyed := by
  obtain ⟨before, f, mtime, snapshot, config, newId, used, used', result, hkeyed, -,
    hreconcile⟩ := h
  obtain ⟨diff, db1, -, hupserts, hdeletes⟩ := reconcile_eq_ok hreconcile
  have hdb1 : db1.Keyed := by
    generalize (upsertsOf config newId used before.listFileRecords diff.createdOrChanged
      snapshot).1 = upserts at hupserts
    generalize before.records.find = previous at hupserts
    clear hreconcile hdeletes
    induction upserts generalizing before with
    | nil =>
      cases hupserts
      exact hkeyed
    | cons u upserts ih =>
      obtain ⟨db2, hstep, hrest⟩ := ok_of_bind hupserts
      rw [reconcileUpsert, if_neg (by simp)] at hstep
      exact ih db2 (keyed_upsertFileRecord hkeyed hstep) hrest
  generalize (upsertsOf config newId used before.listFileRecords diff.createdOrChanged
    snapshot).2 = drawn at hdeletes
  generalize before.records.find = previous at hdeletes
  generalize diff.deletedPaths = paths at hdeletes
  clear hreconcile hupserts
  induction paths generalizing db1 drawn with
  | nil =>
    cases hdeletes
    exact hdb1
  | cons path paths ih =>
    obtain ⟨db2, hstep, hrest⟩ := ok_of_bind hdeletes
    rw [reconcileDelete, if_neg Bool.false_ne_true] at hstep
    exact ih db2 (keyed_upsertFileRecord hdb1 hstep) (drawn + 1) hrest

/-! ## The preview and the scans -/

/-- What the IPC command hands to `Preview`: the paths of the file records. -/
def trackedPaths (db : Database H) : List Path :=
  (db.listFileRecords.filter fun r => r.kind = .file).map FileRecord.relativePath

/-- The tracked files still on disk that `db'` has for deleted. -/
def deletedTracked (f : Folder) (db db' : Database H) : List Path :=
  (trackedPaths db).filter fun p =>
    f.isRegularFile p && (db'.records.find p).any fun r => r.kind = .tombstone

/-- The counts and samples of a preview are those of the files of two snapshots. -/
structure Predicts (maximumSamples : Nat) (result : IgnorePreview) (before after : List Path) :
    Prop where
  truncated : result.truncated = false
  ignored : result.newlyIgnored = (before.filter fun p => p ∉ after).length
  ignoredSamples :
    result.newlyIgnoredSamples = (before.filter fun p => p ∉ after).take maximumSamples
  included : result.newlyIncluded = (after.filter fun p => p ∉ before).length
  includedSamples :
    result.newlyIncludedSamples = (after.filter fun p => p ∉ before).take maximumSamples
  total : result.proposedIgnored + result.newlyIncluded =
    result.currentlyIgnored + result.newlyIgnored

theorem difference_eq {rules rules' : IgnoreRules} {files : List Path} :
    ((files.filter fun p => !rules.ignores p).filter fun p =>
        p ∉ files.filter fun p => !rules'.ignores p) =
      files.filter fun p => !rules.ignores p && rules'.ignores p := by
  rw [List.filter_filter]
  refine List.filter_congr fun p hp => ?_
  simp [List.mem_filter, hp, Bool.and_comm]

theorem unpruned_eq {rules rules' : IgnoreRules} {files : List Path} :
    ((files.filter fun p => !IgnoreRules.ignores ⟨[]⟩ p).filter fun p =>
        !rules.ignores p && rules'.ignores p) =
      files.filter fun p => !rules.ignores p && rules'.ignores p := by
  rw [List.filter_filter]
  refine List.filter_congr fun p _ => ?_
  cases hbuiltIn : IgnoreRules.ignores ⟨[]⟩ p with
  | false => simp
  | true => simp [rules.ignores_of_builtIn hbuiltIn]

theorem mem_filesOf {f : Folder} {p : Path} :
    p ∈ filesOf f.listed ↔ f.isRegularFile p = true ∧ ¬f.Hidden p := by
  simp only [filesOf, List.mem_map, List.mem_filter, decide_eq_true_eq, Folder.isRegularFile]
  constructor
  · rintro ⟨⟨q, node⟩, ⟨hmem, hnode⟩, rfl⟩
    obtain ⟨hfind, hshown⟩ := Folder.mem_listed.mp hmem
    rw [hfind]
    cases node with
    | file content => exact ⟨rfl, hshown⟩
    | directory => exact absurd rfl hnode
  · rintro ⟨h, hshown⟩
    split at h
    · rename_i content hfind
      exact ⟨(p, .file content), ⟨Folder.mem_listed.mpr ⟨hfind, hshown⟩, by simp⟩, rfl⟩
    · cases h

theorem nodup_filesOf (f : Folder) : (filesOf f.listed).Nodup := by
  refine List.pairwise_map.mpr (List.Pairwise.filter _ ?_)
  exact f.sorted_listed.imp fun h => ne_of_lt h

omit [ContentHash H] in
theorem mem_trackedPaths {db : Database H} (hkeyed : db.Keyed) {p : Path} :
    p ∈ trackedPaths db ↔ ∃ r, db.records.find p = some r ∧ r.kind = .file := by
  simp only [trackedPaths, List.mem_map, List.mem_filter, decide_eq_true_eq]
  constructor
  · rintro ⟨r, ⟨hr, hkind⟩, rfl⟩
    obtain ⟨q, hq⟩ := Database.mem_listFileRecords.mp hr
    exact ⟨r, hkeyed q r hq ▸ hq, hkind⟩
  · rintro ⟨r, hr, hkind⟩
    exact ⟨r, ⟨Database.mem_listFileRecords.mpr ⟨p, hr⟩, hkind⟩, hkeyed p r hr⟩

omit [ContentHash H] in
theorem nodup_trackedPaths {db : Database H} (hkeyed : db.Keyed) : (trackedPaths db).Nodup := by
  refine List.pairwise_map.mpr (List.Pairwise.filter _ ?_)
  exact hkeyed.sorted.imp fun h => ne_of_lt h

/-- The files the walk finds. -/
def foundFiles (f : Folder) : List Path :=
  (filesOf f.listed).filter fun p => !IgnoreRules.ignores ⟨[]⟩ p

/-- What `Preview` returns when there are fewer files than the limit. -/
def previewResult (current proposed : IgnoreRules) (tracked : List Path) (maximumSamples : Nat)
    (f : Folder) : IgnorePreview :=
  previewOf current proposed tracked maximumSamples
    ⟨(foundFiles f).length, false, 0, 0, 0, 0, 0, [], [], []⟩ (foundFiles f)

omit [ContentHash H] in
/-- What `BuildInventory` returns when the limit is not reached. -/
theorem buildInventory_eq {f : Folder} (hf : f.Named) {maximumFiles : Nat}
    (hlimit : (foundFiles f).length < maximumFiles) :
    buildInventory f maximumFiles = .ok ⟨foundFiles f, (foundFiles f).length, false⟩ := by
  rw [buildInventory, inventoryFrom_eq hf.forall_mem (by simp) (by rwa [Nat.zero_add])]
  simp [foundFiles]

omit [ContentHash H] in
theorem preview_eq {f : Folder} (hf : f.Named) {currentRules proposedRules : Bytes}
    {current proposed : IgnoreRules} (hcurrent : IgnoreRules.load currentRules = .ok current)
    (hproposed : IgnoreRules.load proposedRules = .ok proposed) {maximumFiles : Nat}
    (hlimit : (filesOf f.listed).length < maximumFiles) (tracked : List Path)
    (maximumSamples : Nat) :
    preview f currentRules proposedRules tracked maximumFiles maximumSamples =
      .ok (previewResult current proposed tracked maximumSamples f) := by
  have hinventory := buildInventory_eq hf (lt_of_le_of_lt (List.length_filter_le _ _) hlimit)
  have hnames : ∀ p ∈ foundFiles f, IgnoreRules.normalize p = .ok p := by
    intro p hp
    obtain ⟨e, he, rfl⟩ := List.mem_map.mp (List.mem_filter.mp hp).1
    exact hf.forall_mem e (List.mem_filter.mp he).1
  rw [preview, hcurrent, hproposed, hinventory]
  exact previewLoop_eq hnames _

theorem predicts_previewResult {f : Folder} (hf : f.Named) {current proposed : IgnoreRules}
    (tracked : List Path) (maximumSamples : Nat) {mtime : Path → Int}
    {before after : List (SnapshotEntry H)} (hbefore : f.scan current mtime = .ok before)
    (hafter : f.scan proposed mtime = .ok after) :
    Predicts maximumSamples (previewResult current proposed tracked maximumSamples f)
      (snapshotFiles before) (snapshotFiles after) := by
  have hignored : ((snapshotFiles before).filter fun p => p ∉ snapshotFiles after) =
      (foundFiles f).filter fun p => !current.ignores p && proposed.ignores p := by
    rw [scan_files hf hbefore, scan_files hf hafter, difference_eq, foundFiles, unpruned_eq]
  have hincluded : ((snapshotFiles after).filter fun p => p ∉ snapshotFiles before) =
      (foundFiles f).filter fun p => current.ignores p && !proposed.ignores p := by
    rw [scan_files hf hbefore, scan_files hf hafter, difference_eq, foundFiles]
    simp only [Bool.and_comm (current.ignores _)]
    rw [unpruned_eq]
  constructor
  · rfl
  · rw [hignored]
    simp [previewResult, previewOf]
  · rw [hignored]
    simp [previewResult, previewOf, foldl_sample]
  · rw [hincluded]
    simp [previewResult, previewOf]
  · rw [hincluded]
    simp [previewResult, previewOf, foldl_sample]
  · have hcount := countP_ignores current proposed (foundFiles f)
    simpa [previewResult, previewOf] using hcount

/-- The warnings of a preview are the tombstones of the scan, in a folder that shows everything: a
file the walks do not find gets its tombstone without a warning. -/
theorem tracked_previewResult {f : Folder} (hf : f.Named) (hshown : ∀ p, ¬f.Hidden p)
    {current proposed : IgnoreRules} (maximumSamples : Nat) {mtime : Path → Int}
      {db db' : Database H}
    (hdb : LeftBySourceScan current db) {after : List (SnapshotEntry H)}
    (hafter : f.scan proposed mtime = .ok after) {config : ReconcileConfig}
    {newId : Nat → VersionId} {used used' : Nat} {reconciled : ReconcileResult}
    (h : reconcile false db after config newId used = .ok ((reconciled, used'), db')) :
    (previewResult current proposed (trackedPaths db) maximumSamples f).trackedNewlyIgnored =
      (deletedTracked f db db').length := by
  have hkeyed := hdb.keyed
  have hsorted := Folder.sorted_scanEntries f.sorted_listed hafter
  have hcount : (previewResult current proposed (trackedPaths db) maximumSamples
      f).trackedNewlyIgnored = (((foundFiles f).filter fun p =>
        !current.ignores p && proposed.ignores p).filter fun p =>
          (trackedPaths db).contains p).length := by
    simp [previewResult, previewOf]
  rw [hcount, foundFiles, unpruned_eq]
  refine List.Perm.length_eq ((List.perm_ext_iff_of_nodup ?_ ?_).mpr fun p => ?_)
  · exact ((nodup_filesOf f).filter _).filter _
  · exact (nodup_trackedPaths hkeyed).filter _
  · rw [List.mem_filter, List.mem_filter, deletedTracked, List.mem_filter, mem_filesOf,
      List.contains_iff_mem, mem_trackedPaths hkeyed]
    have htombstoned : ((db'.records.find p).any fun r => r.kind = .tombstone) = true ↔
        Node.Tombstoned p db' := by
      rw [Option.any_eq_true]
      simp only [decide_eq_true_eq, Node.Tombstoned]
    rw [Bool.and_eq_true (f.isRegularFile p), htombstoned]
    -- of a live file on disk, the scan keeps what the proposed rules let it see
    have hlive : ∀ r, db.records.find p = some r → r.kind = .file → f.isRegularFile p = true →
        ((!current.ignores p && proposed.ignores p) = true ↔ Node.Tombstoned p db') := by
      intro r hr hkind hfile
      have htracked : r.kind ≠ .tombstone := hkind ▸ by decide
      obtain ⟨e, he, rfl⟩ := List.mem_map.mp (mem_filesOf.mpr ⟨hfile, hshown p⟩)
      have hname := hf.forall_mem e (List.mem_filter.mp he).1
      have hcurrent : current.ignores e.1 = false := Except.ok.inj
        ((IgnoreRules.isIgnored_of_normal hname).symm.trans (hdb.not_ignored hr htracked))
      have hseen : (∃ entry ∈ after, entry.relativePath = e.1) ↔ proposed.ignores e.1 = false := by
        constructor
        · rintro ⟨entry, hentry, hpath⟩
          obtain ⟨q, node, -, hignored, rfl⟩ := (Folder.mem_scanEntries hafter).mp hentry
          rw [Folder.snapshotEntry_relativePath] at hpath
          rw [hpath, IgnoreRules.isIgnored_of_normal hname] at hignored
          exact Except.ok.inj hignored
        · intro hproposed
          refine ⟨_, (Folder.mem_scanEntries hafter).mpr ⟨e.1, e.2, (List.mem_filter.mp he).1,
            ?_, rfl⟩, Folder.snapshotEntry_relativePath mtime e.1 e.2⟩
          rw [IgnoreRules.isIgnored_of_normal hname, hproposed]
      obtain ⟨hunseen, hkept⟩ := reconcile_records hkeyed hsorted h e.1
      rw [hcurrent]
      cases hproposed : proposed.ignores e.1 with
      | false => exact iff_of_false (by simp) (hkept (hseen.mpr hproposed) r hr htracked)
      | true =>
        refine iff_of_true rfl ((hunseen fun entry hentry hpath => ?_).1 r hr htracked)
        rw [hseen.mp ⟨entry, hentry, hpath⟩] at hproposed
        cases hproposed
    constructor
    · rintro ⟨⟨⟨hfile, -⟩, hrules⟩, r, hr, hkind⟩
      exact ⟨⟨r, hr, hkind⟩, hfile, (hlive r hr hkind hfile).mp hrules⟩
    · rintro ⟨⟨r, hr, hkind⟩, hfile, htombstone⟩
      exact ⟨⟨⟨hfile, hshown p⟩, (hlive r hr hkind hfile).mpr htombstone⟩, r, hr, hkind⟩

/-- **A preview predicts the scans**: its counts and samples are the files the two rule sets differ
on, and in a folder without links and without directories that may not be listed the deletions it
warns of are the tombstones the next scan of the source records for files that are still on disk. -/
theorem preview_predicts_scan {f : Folder} (hf : f.Named) {currentRules proposedRules : Bytes}
    {current proposed : IgnoreRules} (hcurrent : IgnoreRules.load currentRules = .ok current)
    (hproposed : IgnoreRules.load proposedRules = .ok proposed) {maximumFiles : Nat}
    (hlimit : (filesOf f.listed).length < maximumFiles) (maximumSamples : Nat)
    (mtime : Path → Int) {db : Database H} (hdb : LeftBySourceScan current db) :
    ∃ (result : IgnorePreview) (before after : List (SnapshotEntry H)),
      preview f currentRules proposedRules (trackedPaths db) maximumFiles maximumSamples =
          .ok result ∧
        f.scan current mtime = .ok before ∧ f.scan proposed mtime = .ok after ∧
        Predicts maximumSamples result (snapshotFiles before) (snapshotFiles after) ∧
        ∀ config newId used used' reconciled db',
          f.links = [] → f.unlisted = [] →
            reconcile false db after config newId used = .ok ((reconciled, used'), db') →
              result.trackedNewlyIgnored = (deletedTracked f db db').length := by
  obtain ⟨before, hbefore⟩ := scan_ok (H := H) hf current mtime
  obtain ⟨after, hafter⟩ := scan_ok (H := H) hf proposed mtime
  exact ⟨_, before, after, preview_eq hf hcurrent hproposed hlimit _ maximumSamples, hbefore,
    hafter, predicts_previewResult hf _ maximumSamples hbefore hafter,
    fun _ _ _ _ _ _ hlinks hunlisted h =>
      tracked_previewResult hf (Folder.not_hidden hlinks hunlisted) maximumSamples hdb hafter h⟩

end Scans

/-! ### A change of rules -/

/-- A folder with a directory that no walk enters, two logs and a note. -/
def logFolder : Folder :=
  .plain (((((OrdMap.empty.insert (ascii ".git") .directory).insert (ascii ".git/HEAD")
    (.file [])).insert (ascii "a.log") (.file [])).insert (ascii "b.log") (.file [])).insert
      (ascii "note") (.file [])) (by decide +kernel) []

/-- The rules under which the logs are tracked and the note is not. -/
def noteRules : IgnoreRules := ⟨[⟨ascii "note", false, false, false⟩]⟩

/-- The rules that are proposed: no logs but `b.log`. -/
def logRules : IgnoreRules :=
  ⟨[⟨ascii "*.log", false, false, false⟩, ⟨ascii "b.log", true, false, false⟩]⟩

/-- The first scan of a source with this folder. -/
def firstScan : Except Error ((ReconcileResult × Nat) × Database Bytes) := do
  let snapshot ← logFolder.scan noteRules fun _ => 0
  reconcile false Database.empty snapshot ⟨ascii "t", ascii "s", 1, 1⟩ decimal 1

/-- What it leaves. -/
def logDatabase : Database Bytes :=
  match firstScan with
  | .ok scanned => scanned.2
  | .error _ => .empty

theorem leftBySourceScan_logDatabase : LeftBySourceScan noteRules logDatabase := by
  have hok : firstScan.isOk = true := by decide +kernel
  obtain ⟨⟨⟨reconciled, used⟩, db⟩, hfirst⟩ : ∃ scanned, firstScan = .ok scanned := by
    cases h : firstScan with
    | error e => rw [h] at hok; cases hok
    | ok scanned => exact ⟨scanned, rfl⟩
  have hdb : logDatabase = db := by rw [logDatabase, hfirst]
  obtain ⟨snapshot, hscan, hreconcile⟩ := ok_of_bind hfirst
  rw [hdb]
  exact ⟨Database.empty, logFolder, _, snapshot, _, _, _, _, _, nofun, hscan, hreconcile⟩

/-- The preview does not count what is in `.git`; it says that `a.log` will be ignored and deleted
and that `note` will not be ignored any more, and so it is. -/
theorem preview_predicts_scan_logs :
    ∃ result, preview logFolder (ascii "note") (ascii "*.log\n!b.log")
      (trackedPaths logDatabase) 5 1 =
        .ok result ∧
      result.scannedFiles = 3 ∧ result.newlyIgnoredSamples = [ascii "a.log"] ∧
      result.newlyIncludedSamples = [ascii "note"] ∧ result.trackedNewlyIgnored = 1 ∧
      ∃ after : List (SnapshotEntry Bytes), logFolder.scan logRules (fun _ => 0) = .ok after ∧
        ∀ config newId used used' reconciled db',
          reconcile false logDatabase after config newId used = .ok ((reconciled, used'), db') →
            (deletedTracked logFolder logDatabase db').length = 1 := by
  have hnames : ∀ e ∈ logFolder.tree.entries, IgnoreRules.normalize e.1 = .ok e.1 := by
    decide +kernel
  obtain ⟨result, _, after, hresult, _, hafter, _, hdeleted⟩ := preview_predicts_scan
    (fun p node hp => hnames (p, node) (OrdMap.find_eq_some_iff.mp hp))
    (by decide +kernel : IgnoreRules.load (ascii "note") = .ok noteRules)
    (by decide +kernel : IgnoreRules.load (ascii "*.log\n!b.log") = .ok logRules)
    (by decide +kernel : (filesOf logFolder.listed).length < 5) 1 (fun _ => 0)
    leftBySourceScan_logDatabase
  have hcounts : (preview logFolder (ascii "note") (ascii "*.log\n!b.log")
      (trackedPaths logDatabase) 5 1).map (fun result => (result.scannedFiles,
        result.newlyIgnoredSamples, result.newlyIncludedSamples, result.trackedNewlyIgnored)) =
      .ok (3, [ascii "a.log"], [ascii "note"], 1) := by decide +kernel
  rw [hresult] at hcounts
  obtain ⟨hscanned, hignored, hincluded, htracked⟩ := by
    simpa only [Prod.mk.injEq] using Except.ok.inj hcounts
  refine ⟨result, hresult, hscanned, hignored, hincluded, htracked, after, hafter, ?_⟩
  intro config newId used used' reconciled db' hreconcile
  rw [← htracked]
  exact (hdeleted config newId used used' reconciled db' rfl rfl hreconcile).symm

end VeritasSync
