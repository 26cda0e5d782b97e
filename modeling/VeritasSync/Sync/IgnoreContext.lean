import VeritasSync.Lib.Tally
import VeritasSync.Sync.IgnorePolicy

/-!
# What an AI provider is told about a folder

`BuildContext` describes a folder to whoever is asked for ignore rules.  In the precise mode the
description has the names of directories and some paths; in the private mode it may have neither.

Both modes count files, by directory or by depth, and write one line for each group with its most
frequent extensions, while the lines fit.

What the private mode may tell is a matter of promises made to a user, so it is stated as one:
whatever in two folders is different, if the files have the same depths and extensions, the provider
is told the same.  Names, sizes and contents, and the question that was asked, cannot be told apart.
The statement is stronger than a list of what the text does not contain.

## What is here

* `appendSummaryLine`, `searchTerms`, `buildContext` — the source's functions.
* `shape` — what the private mode looks at: the depth of a file and its extension.
* `private_context` — **two folders with the same shapes have the same private context**, whatever
  was asked about them.
-/

set_option autoImplicit false

namespace VeritasSync

namespace IgnorePolicy

/-! ## Texts -/

/-- `LowerAscii`: other bytes than ASCII letters stay as they are. -/
def lowerAscii (value : Bytes) : Bytes :=
  value.map fun c => if 'A'.toUInt8 ≤ c ∧ c ≤ 'Z'.toUInt8 then c + 32 else c

/-- `Extension`: a name has none if it has no dot, or only at its beginning, or at its end. -/
def extension (path : Path) : Bytes :=
  let name := fileName path
  let tail := name.rtakeWhile fun c => c ≠ dot
  if tail = [] ∨ name.length ≤ tail.length + 1 then ascii "(none)" else lowerAscii (dot :: tail)

/-- How many files have an extension. -/
abbrev ExtensionCounts : Type := OrdMap Bytes Nat

/-- The extensions with their counts, the most frequent one first. -/
def orderedCounts (extensions : ExtensionCounts) : List (Nat × Bytes) :=
  (extensions.entries.map fun e => (e.2, e.1)).insertionSort fun left right =>
    right.1 < left.1 ∨ left.1 = right.1 ∧ left.2 ≤ right.2

/-- The line of a group. -/
def summaryLine (label : Bytes) (count : Nat) (extensions : ExtensionCounts) : Bytes :=
  let ordered := orderedCounts extensions
  label ++ ascii ": " ++ decimal count ++ ascii " files" ++
    (if ordered = [] then []
      else ascii " (" ++
        (ascii ", ").intercalate
          ((ordered.take 6).map fun e => e.2 ++ ascii " x" ++ decimal e.1) ++
        (if ordered.length > 6 then ascii ", ..." else []) ++ ascii ")") ++
    ascii "\n"

/-- `AppendSummaryLine`: a line that does not fit is left out. -/
def appendSummaryLine (maximumBytes : Nat) (output label : Bytes)
    (group : Nat × ExtensionCounts) : Bytes :=
  let value := summaryLine label group.1 group.2
  if output.length + value.length ≤ maximumBytes then output ++ value else output

/-- What `SearchTerms` understands: a term, and the words that ask for it. -/
def mappings : List (Bytes × List Bytes) :=
  [(ascii "test", [ascii "test", ascii "spec", ascii "mock", [0xE6, 0xB5, 0x8B, 0xE8, 0xAF, 0x95]]),
    (ascii "build", [ascii "build", ascii "dist", ascii "output",
      [0xE7, 0xBC, 0x96, 0xE8, 0xAF, 0x91], [0xE6, 0x9E, 0x84, 0xE5, 0xBB, 0xBA],
      [0xE4, 0xBA, 0xA7, 0xE7, 0x89, 0xA9]]),
    (ascii "log", [ascii "log", [0xE6, 0x97, 0xA5, 0xE5, 0xBF, 0x97]]),
    (ascii "cache", [ascii "cache", [0xE7, 0xBC, 0x93, 0xE5, 0xAD, 0x98]]),
    (ascii "temp", [ascii "temp", ascii "tmp", [0xE4, 0xB8, 0xB4, 0xE6, 0x97, 0xB6]]),
    (ascii "doc", [ascii "doc", ascii "readme", [0xE6, 0x96, 0x87, 0xE6, 0xA1, 0xA3]]),
    (ascii "config", [ascii "config", ascii "conf", ascii "setting",
      [0xE9, 0x85, 0x8D, 0xE7, 0xBD, 0xAE]]),
    (ascii "image", [ascii "image", ascii "img", [0xE5, 0x9B, 0xBE, 0xE7, 0x89, 0x87],
      [0xE7, 0x85, 0xA7, 0xE7, 0x89, 0x87]]),
    (ascii "video", [ascii "video", [0xE8, 0xA7, 0x86, 0xE9, 0xA2, 0x91]])]

/-- A byte of a word: `isalnum`, an underscore or a dot. -/
def wordByte (c : UInt8) : Bool :=
  ('0'.toUInt8 ≤ c && c ≤ '9'.toUInt8) || ('A'.toUInt8 ≤ c && c ≤ 'Z'.toUInt8) ||
    ('a'.toUInt8 ≤ c && c ≤ 'z'.toUInt8) || c = '_'.toUInt8 || c = dot

/-- `SearchTerms`: the words of the description with three characters or more, and the terms that
known expressions in it stand for. -/
def searchTerms (description : Bytes) : List Bytes :=
  let lower := lowerAscii description
  let known := (mappings.filter fun m => m.2.any fun trigger => contains lower trigger).map Prod.fst
  let words := (lower.splitOnP fun c => !wordByte c).filter fun word => 3 ≤ word.length
  ((known ++ words).insertionSort fun a b => a ≤ b).dedup

/-! ## The context -/

/-- `storage::IgnoreContextMode`: how much of the folder the provider is told. -/
inductive IgnoreContextMode where
  | kPrivate
  | kPrecise
  deriving DecidableEq, Repr

/-- `storage::IgnoreContext`: what is sent to the provider. -/
structure IgnoreContext where
  scannedFiles : Nat
  truncated : Bool
  directorySummary : Bytes
  relevantPaths : List Path
  comparisonPaths : List Path
  deriving DecidableEq

/-- The first line of a summary. -/
def summaryHead (inventory : Inventory) : Bytes :=
  ascii "Total files: " ++ decimal inventory.fileCount ++
    (if inventory.truncated then ascii "+ (truncated)\n" else ascii "\n")

/-- What the private mode looks at: how deep a file lies, and its extension. -/
def shape (path : Path) : Nat × Bytes := (path.count slash, extension path)

/-- The summary of the private mode: a line for each depth. -/
def privateSummary (inventory : Inventory) (maximumSummaryBytes : Nat) : Bytes :=
  (OrdMap.groups (inventory.entries.map shape)).entries.foldl
    (fun output group => appendSummaryLine maximumSummaryBytes output
      (ascii "depth " ++ decimal group.1) group.2)
    (summaryHead inventory)

/-- What the precise mode looks at: the directory of a file, and its extension. -/
def place (path : Path) : Bytes × Bytes :=
  (if slash ∈ path then parentPath path else ascii "(root)", extension path)

/-- The directories, the shallow ones first. -/
def orderedDirectories (directories : OrdMap Bytes (Nat × ExtensionCounts)) :
    List (Bytes × Nat × ExtensionCounts) :=
  directories.entries.insertionSort fun left right =>
    left.1.count slash < right.1.count slash ∨
      left.1.count slash = right.1.count slash ∧ left.1 ≤ right.1

/-- The summary of the precise mode: a line for each directory. -/
def preciseSummary (inventory : Inventory) (maximumSummaryBytes : Nat) : Bytes :=
  (orderedDirectories (OrdMap.groups (inventory.entries.map place))).foldl
    (fun output group => appendSummaryLine maximumSummaryBytes output group.1 group.2)
    (summaryHead inventory)

/-- The paths that have one of the terms in them. -/
def relevantPaths (entries : List Path) (description : Bytes) : List Path :=
  (entries.filter fun p =>
    (searchTerms description).any fun term => contains (lowerAscii p) term).take 20

/-- Their neighbours: other paths in the same directories, for comparison. -/
def comparisonPaths (entries relevant : List Path) : List Path :=
  (entries.filter fun p => !relevant.contains p &&
    (relevant.map parentPath).contains (parentPath p)).take 8

/-- `IgnorePolicy::BuildContext`: the text for the provider, depending on the mode. -/
def buildContext (f : Folder) (description : Bytes) (mode : IgnoreContextMode)
    (maximumFiles maximumSummaryBytes : Nat) : Except Error IgnoreContext := do
  if description = [] ∨ description.length > 4096 then
    throw (.invalidArgument "ignore description must contain 1 to 4096 bytes")
  if maximumFiles = 0 ∨ maximumSummaryBytes < 256 then
    throw (.invalidArgument "ignore context limits are invalid")
  let inventory ← buildInventory f maximumFiles
  match mode with
  | .kPrivate =>
    pure ⟨inventory.fileCount, inventory.truncated, privateSummary inventory maximumSummaryBytes,
      [], []⟩
  | .kPrecise =>
    let relevant := relevantPaths inventory.entries description
    pure ⟨inventory.fileCount, inventory.truncated, preciseSummary inventory maximumSummaryBytes,
      relevant, comparisonPaths inventory.entries relevant⟩

/-! ## What the private mode gives away

The context is computed from counts, and counts do not depend on the order of the files.  So it is
enough that the shapes of one folder are a permutation of those of the other. -/

/-- The description is one that `BuildContext` takes. -/
def ValidDescription (description : Bytes) : Prop :=
  description ≠ [] ∧ description.length ≤ 4096

instance (description : Bytes) : Decidable (ValidDescription description) :=
  inferInstanceAs (Decidable (_ ∧ _))

theorem ValidDescription.not_refused {description : Bytes} (h : ValidDescription description) :
    ¬(description = [] ∨ description.length > 4096) := by
  rw [not_or, not_lt]
  exact h

/-- What the private mode returns. -/
theorem buildContext_private {f : Folder} (hf : f.Named) {description : Bytes}
    (hdescription : ValidDescription description) {maximumFiles : Nat}
    (hfewer : (foundFiles f).length < maximumFiles) {maximumSummaryBytes : Nat}
    (hbytes : 256 ≤ maximumSummaryBytes) :
    buildContext f description .kPrivate maximumFiles maximumSummaryBytes =
      .ok ⟨(foundFiles f).length, false,
        privateSummary ⟨foundFiles f, (foundFiles f).length, false⟩ maximumSummaryBytes, [],
        []⟩ := by
  have hlimits : ¬(maximumFiles = 0 ∨ maximumSummaryBytes < 256) := by omega
  rw [buildContext, if_neg hdescription.not_refused, if_neg hlimits, buildInventory_eq hf hfewer]
  rfl

/-- A limit that is too low is refused before the folder is looked at. -/
theorem buildContext_limit (f : Folder) {description : Bytes}
    (hdescription : ValidDescription description) (mode : IgnoreContextMode) (maximumFiles : Nat)
    {maximumSummaryBytes : Nat} (hbytes : maximumSummaryBytes < 256) :
    buildContext f description mode maximumFiles maximumSummaryBytes =
      .error (.invalidArgument "ignore context limits are invalid") := by
  rw [buildContext, if_neg hdescription.not_refused, if_pos (.inr hbytes)]
  rfl

/-- The summary of the private mode reads the shapes, and not in their order. -/
theorem privateSummary_perm {l l' : List Path} (h : (l.map shape).Perm (l'.map shape))
    (maximumSummaryBytes : Nat) :
    privateSummary ⟨l, l.length, false⟩ maximumSummaryBytes =
      privateSummary ⟨l', l'.length, false⟩ maximumSummaryBytes := by
  have hlength : l.length = l'.length := by simpa using h.length_eq
  rw [privateSummary, privateSummary, OrdMap.groups_perm h, summaryHead, summaryHead, hlength]

/-- **The private context tells depths and extensions, and nothing else.**  Two folders whose files,
the built-in exceptions left out, have the same shapes equally often have the same context, whatever
the files and directories are called and whatever was asked.  It names no path at all. -/
theorem private_context {f g : Folder} (hf : f.Named) (hg : g.Named) {maximumFiles : Nat}
    (hfewer : (foundFiles f).length < maximumFiles)
    (hshapes : ((foundFiles f).map shape).Perm ((foundFiles g).map shape))
    {description description' : Bytes} (hdescription : ValidDescription description)
    (hdescription' : ValidDescription description') (maximumSummaryBytes : Nat) :
    buildContext f description .kPrivate maximumFiles maximumSummaryBytes =
        buildContext g description' .kPrivate maximumFiles maximumSummaryBytes ∧
      (256 ≤ maximumSummaryBytes → ∃ context,
        buildContext f description .kPrivate maximumFiles maximumSummaryBytes = .ok context ∧
          context.relevantPaths = [] ∧ context.comparisonPaths = []) := by
  have hlength : (foundFiles f).length = (foundFiles g).length := by simpa using hshapes.length_eq
  refine ⟨?_, fun hbytes =>
    ⟨_, buildContext_private hf hdescription hfewer hbytes, rfl, rfl⟩⟩
  by_cases hbytes : 256 ≤ maximumSummaryBytes
  · rw [buildContext_private hf hdescription hfewer hbytes,
      buildContext_private hg hdescription' (hlength ▸ hfewer) hbytes,
      privateSummary_perm hshapes, hlength]
  · rw [buildContext_limit f hdescription _ _ (not_le.mp hbytes),
      buildContext_limit g hdescription' _ _ (not_le.mp hbytes)]

/-- A folder with two texts in a directory. -/
def diaryFolder : Folder :=
  .plain (((OrdMap.empty.insert (ascii "diary") .directory).insert (ascii "diary/monday.txt")
      (.file [1])).insert (ascii "diary/tuesday.TXT") (.file [])) (by decide +kernel) []

/-- The same shapes under other names, and a directory that is not looked into. -/
def ledgerFolder : Folder :=
  .plain ((((OrdMap.empty.insert (ascii ".git") .directory).insert (ascii ".git/config")
      (.file [])).insert (ascii "a") .directory).insert (ascii "a/1.txt") (.file []) |>.insert
        (ascii "a/2.txt") (.file [])) (by decide +kernel) []

theorem private_context_ledger :
    buildContext diaryFolder (ascii "keep my diary") .kPrivate 3 256 =
      buildContext ledgerFolder (ascii "logs") .kPrivate 3 256 := by
  have hnamed : ∀ f : Folder, (∀ e ∈ f.tree.entries, IgnoreRules.normalize e.1 = .ok e.1) →
      f.Named := fun f h p node hp => h (p, node) (OrdMap.find_eq_some_iff.mp hp)
  exact (private_context (hnamed diaryFolder (by decide +kernel))
    (hnamed ledgerFolder (by decide +kernel)) (by decide +kernel) (by decide +kernel)
    (by decide +kernel) (by decide +kernel) 256).1

end IgnorePolicy

end VeritasSync
