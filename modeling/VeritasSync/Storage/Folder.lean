import VeritasSync.Common.Protocol
import VeritasSync.Storage.IgnoreRules

/-!
# The task folder

What is on disk below the task root, by relative path: what each path leads to when symbolic links
are followed, which of the paths are symbolic links themselves, which directories may not be listed,
and the text of the rule file.  A `Folder` carries what every file system has and the proofs need:
whatever lies below a path lies below a directory, every link leads to something, and what may not
be listed is a directory.

`storage::SafeFileWriter` is modelled operation by operation.  Each one either takes effect as a
whole or throws and leaves the folder alone (`WriteAtomically` goes through a part file that only
appears under its final name by a rename, and a directory is created only where nothing was), so
each is a function to `Except Error Folder`.  A resumable part file is a file of the folder like any
other, under the destination's name with `.part` after it.

The links are there because the two sides of the engine treat them differently.  The writer asks
`symlink_status` and refuses to write to a link or to create anything below one, while its checks
for a file or a directory follow them; the scanner skips a link and everything below it, and says
nothing.  A directory that may not be listed is the scanner's own affair: with
`skip_permission_denied` its contents are left out without an error, although the paths in it can be
opened by name.  What the scanner leaves out in one of these ways is `Hidden`; `listed` is the rest,
and `scan` works on that.

The rule file `.veritasignore` is kept apart from the tree.  The built-in ignore rules exclude
every path with such a component, so neither a scan nor a manifest ever reaches it; the only
function that writes it is `IgnorePolicy::Apply`.

A link leads out of the folder, and no two of them to the same place: a write below one shows at no
other path.  A link that leads to nothing, other failures of the file system, and names that differ
only in case are not modelled.
-/

set_option autoImplicit false

namespace VeritasSync

/-- What a path leads to. -/
inductive FsNode where
  | file (content : Bytes)
  | directory
  deriving DecidableEq

/-- The paths of a folder and what they lead to. -/
abbrev Tree := OrdMap Path FsNode

/-- Whatever lies below a path lies below a directory. -/
def Tree.Closed (t : Tree) : Prop :=
  ∀ p n, t.find p = some n → ∀ d, IsBelow d p → t.find d = some .directory

/-- Only the entries of the tree have to be looked at. -/
instance (t : Tree) : Decidable t.Closed :=
  decidable_of_iff (∀ e ∈ t.entries, ∀ d ∈ parents e.1, t.find d = some .directory) <| by
    refine ⟨fun h p n hp d hd => ?_, fun h e he d hd => ?_⟩
    · exact h (p, n) (OrdMap.find_eq_some_iff.mp hp) d (mem_parents.mpr hd)
    · exact h e.1 e.2 (OrdMap.find_eq_some_iff.mpr he) d (mem_parents.mp hd)

/-- Every link leads to something, and what may not be listed is a directory; the empty path is the
task root. -/
structure Tree.Marked (t : Tree) (links unlisted : List Path) : Prop where
  links : ∀ p ∈ links, t.find p ≠ none
  unlisted : ∀ p ∈ unlisted, p = [] ∨ t.find p = some .directory

/-- The contents of a task root. -/
structure Folder where
  /-- What the paths lead to. -/
  tree : Tree
  closed : tree.Closed
  /-- The text of `.veritasignore`; an absent file reads as the empty text. -/
  rules : Bytes
  /-- The paths that are symbolic links. -/
  links : List Path
  /-- The directories that may not be listed. -/
  unlisted : List Path
  marked : tree.Marked links unlisted

theorem Tree.marked_nil (t : Tree) : t.Marked [] [] := ⟨by simp, by simp⟩

namespace Folder

/-- A folder without links, every directory of which may be listed. -/
def plain (tree : Tree) (closed : tree.Closed) (rules : Bytes) : Folder :=
  ⟨tree, closed, rules, [], [], tree.marked_nil⟩

/-- A folder with nothing in it but the rule file. -/
def empty (rules : Bytes) : Folder := .plain OrdMap.empty (by simp [Tree.Closed]) rules

/-- `std::filesystem::is_regular_file`, which follows links. -/
def isRegularFile (f : Folder) (p : Path) : Bool :=
  match f.tree.find p with
  | some (.file _) => true
  | _ => false

/-- `std::filesystem::is_directory`, which follows links. -/
def isDirectory (f : Folder) (p : Path) : Bool := f.tree.find p = some .directory

/-- The bytes of a file. -/
def readFile (f : Folder) (p : Path) : Option Bytes :=
  match f.tree.find p with
  | some (.file content) => some content
  | _ => none

/-! ## Paths the task root admits

A path from a peer becomes a path of the file system only after `ResolveTaskPath` has looked at each
of its components.  The checks are for Windows: reserved device names, trailing dots and blanks,
colons.  What the function returns, and whether it leads out of the root, is dealt with in
`VeritasSync.Storage.TaskPath`; here it is only asked whether it throws. -/

/-- A separator of the platform. -/
def isSeparator (c : UInt8) : Bool := c = slash || c = '\\'.toUInt8

/-- An ASCII letter, as in the name of a drive. -/
def isLetter (c : UInt8) : Bool :=
  ('A'.toUInt8 ≤ c && c ≤ 'Z'.toUInt8) || ('a'.toUInt8 ≤ c && c ≤ 'z'.toUInt8)

/-- `std::toupper` in the C locale. -/
def toUpper (c : UInt8) : UInt8 :=
  if 'a'.toUInt8 ≤ c ∧ c ≤ 'z'.toUInt8 then c - 32 else c

/-- The part of a component before its first dot is the name of a device. -/
def isDeviceName (component : Bytes) : Bool :=
  let name := (component.takeWhile fun c => c ≠ dot).map toUpper
  name = ascii "CON" || name = ascii "PRN" || name = ascii "AUX" || name = ascii "NUL" ||
    (name.length = 4 && (ascii "COM" <+: name || ascii "LPT" <+: name) &&
      name[3]?.any fun c => '1'.toUInt8 ≤ c && c ≤ '9'.toUInt8)

/-- The checks `ResolveTaskPath` makes on one component. -/
def checkComponent (component : Bytes) : Except Error Unit :=
  if component = [] ∨ component = [dot] ∨ component = [dot, dot] then
    .error (.invalidArgument "path traversal is not allowed")
  else if component.getLast? = some ' '.toUInt8 ∨ component.getLast? = some dot ∨
      ':'.toUInt8 ∈ component ∨ component.any fun c => c.toNat < 32 ∨ c = 127 then
    .error (.invalidArgument "Windows path component is invalid")
  else if isDeviceName component then
    .error (.invalidArgument "Windows device names are not allowed")
  else .ok ()

/-- The components of a native path: empty ones between separators do not count, one at the end
does. -/
def nativeComponents (p : Bytes) : List Bytes :=
  let parts := p.splitOnP isSeparator
  parts.dropLast.filter (· ≠ []) ++ [parts.getLastD []]

/-- `ResolveTaskPath`, for an existing task root.  The path it returns is the given one below the
root. -/
def resolveTaskPath (relativePath : Path) : Except Error Unit := do
  if relativePath = [] then
    throw (.invalidArgument "task root and relative path are required")
  if relativePath.head?.any isSeparator ∨
      (relativePath.head?.any isLetter ∧ relativePath[1]? = some ':'.toUInt8) then
    throw (.invalidArgument "absolute paths are not allowed")
  (nativeComponents relativePath).forM checkComponent

theorem checkComponent_eq_ok {c : Bytes} (h : checkComponent c = .ok ()) :
    (c ≠ [] ∧ c ≠ [dot] ∧ c ≠ [dot, dot]) ∧ ':'.toUInt8 ∉ c := by
  rw [checkComponent] at h
  split at h
  · cases h
  · rename_i hname
    split at h
    · cases h
    · rename_i hchars
      simp only [not_or] at hname hchars
      exact ⟨hname, hchars.2.2.1⟩

/-! ## Changing the tree -/

/-- `EnsureSafeDirectory`: the directories, outermost first, created where they are missing. -/
def makeDirectories (links : List Path) : List Path → Tree → Except Error Tree
  | [], t => .ok t
  | d :: rest, t =>
    match t.find d with
    | none => makeDirectories links rest (t.insert d .directory)
    | some .directory =>
      if d ∈ links then
        .error (.invalidArgument "destination path traverses a non-directory or symlink")
      else makeDirectories links rest t
    | some (.file _) =>
      .error (.invalidArgument "destination path traverses a non-directory or symlink")

section MakeDirectories

variable {links ds : List Path} {t t' : Tree}

/-- After `EnsureSafeDirectory` the listed paths are directories, and no other path changed. -/
theorem find_makeDirectories (h : makeDirectories links ds t = .ok t') (p : Path) :
    t'.find p = if p ∈ ds then some .directory else t.find p := by
  induction ds generalizing t with
  | nil =>
    cases h
    rfl
  | cons d rest ih =>
    rw [makeDirectories] at h
    split at h
    · rw [ih h, OrdMap.find_insert]
      by_cases hp : p = d
      · simp [hp]
      · simp [hp]
    · rename_i hd
      split at h
      · cases h
      rw [ih h]
      by_cases hp : p = d
      · simp [hp, hd]
      · simp [hp]
    · cases h

/-- `EnsureSafeDirectory` succeeds where no listed path is a file or a link. -/
theorem makeDirectories_eq_ok (hlinks : ∀ d ∈ ds, d ∉ links)
    (h : ∀ d ∈ ds, ∀ b, t.find d ≠ some (.file b)) : ∃ t', makeDirectories links ds t = .ok t' := by
  induction ds generalizing t with
  | nil => exact ⟨t, rfl⟩
  | cons d rest ih =>
    have hrest : ∀ e ∈ rest, e ∉ links := fun e he => hlinks e (List.mem_cons_of_mem _ he)
    rw [makeDirectories]
    split
    · refine ih hrest fun q hq b => ?_
      rw [OrdMap.find_insert]
      split
      · simp
      · exact h q (List.mem_cons_of_mem _ hq) b
    · rw [if_neg (hlinks d List.mem_cons_self)]
      exact ih hrest fun q hq b => h q (List.mem_cons_of_mem _ hq) b
    · rename_i b hb
      exact absurd hb (h d List.mem_cons_self b)

/-- `EnsureSafeDirectory` stops at a file. -/
theorem not_file_of_makeDirectories (h : makeDirectories links ds t = .ok t') {d : Path}
    (hd : d ∈ ds) (b : Bytes) : t.find d ≠ some (.file b) := by
  induction ds generalizing t with
  | nil => cases hd
  | cons e rest ih =>
    rw [makeDirectories] at h
    split at h
    · rename_i he
      by_cases hde : d = e
      · rw [hde, he]
        nofun
      · have := ih h ((List.mem_cons.mp hd).resolve_left hde)
        rwa [OrdMap.find_insert, if_neg hde] at this
    · rename_i he
      split at h
      · cases h
      by_cases hde : d = e
      · rw [hde, he]
        nofun
      · exact ih h ((List.mem_cons.mp hd).resolve_left hde)
    · cases h

/-- Creating directories keeps the tree closed when the list holds the parents of its members. -/
theorem closed_makeDirectories (ht : t.Closed) (hds : ∀ d ∈ ds, ∀ d', IsBelow d' d → d' ∈ ds)
    (h : makeDirectories links ds t = .ok t') : t'.Closed := by
  intro p n hp d hd
  rw [find_makeDirectories h] at hp ⊢
  by_cases hdmem : d ∈ ds
  · rw [if_pos hdmem]
  · rw [if_neg hdmem]
    by_cases hpmem : p ∈ ds
    · exact absurd (hds p hpmem d hd) hdmem
    · rw [if_neg hpmem] at hp
      exact ht p n hp d hd

/-- Creating directories takes nothing away. -/
theorem marked_makeDirectories {marks unlisted : List Path} (ht : t.Marked marks unlisted)
    (h : makeDirectories links ds t = .ok t') : t'.Marked marks unlisted := by
  refine ⟨fun p hp => ?_, fun p hp => (ht.unlisted p hp).imp_right fun hfind => ?_⟩
  · rw [find_makeDirectories h]
    split
    · nofun
    · exact ht.links p hp
  · rw [find_makeDirectories h, hfind, ite_self]

end MakeDirectories

theorem isBelow_trans {a b c : Path} (hab : IsBelow a b) (hbc : IsBelow b c) : IsBelow a c :=
  hab.trans ((List.prefix_append b [slash]).trans hbc)

theorem not_isBelow_self (p : Path) : ¬ IsBelow p p := fun h => by
  have := h.length_le
  simp only [below, List.length_append, List.length_singleton] at this
  omega

theorem mem_parents_of_isBelow {p : Path} :
    ∀ d ∈ parents p, ∀ d', IsBelow d' d → d' ∈ parents p := fun _ hd _ hd' =>
  mem_parents.mpr (isBelow_trans hd' (mem_parents.mp hd))

/-- `EnsureSafeDirectory(destination.parent_path())`.  Together with the folder it returns that the
parents are directories now, which is what an entry that is put there needs. -/
def ensureParents (f : Folder) (p : Path) :
    Except Error { g : Folder // ∀ d, IsBelow d p → g.tree.find d = some .directory } :=
  match h : makeDirectories f.links (parents p) f.tree with
  | .ok t =>
    .ok ⟨{ f with
        tree := t
        closed := closed_makeDirectories f.closed mem_parents_of_isBelow h
        marked := marked_makeDirectories f.marked h },
      fun d hd => by rw [find_makeDirectories h, if_pos (mem_parents.mpr hd)]⟩
  | .error e => .error e

/-- Nothing lies below a path that is not a directory. -/
theorem find_eq_none_of_isBelow (f : Folder) {p q : Path} (hp : f.tree.find p ≠ some .directory)
    (hq : IsBelow p q) : f.tree.find q = none := by
  cases hfind : f.tree.find q with
  | none => rfl
  | some n => exact absurd (f.closed q n hfind p hq) hp

/-- A file or an empty directory put at a path whose parents are directories. -/
def put (f : Folder) (p : Path) (n : FsNode)
    (hparents : ∀ d, IsBelow d p → f.tree.find d = some .directory)
    (hp : f.tree.find p ≠ some .directory) : Folder where
  tree := f.tree.insert p n
  rules := f.rules
  links := f.links
  unlisted := f.unlisted
  marked := by
    refine ⟨fun q hq => ?_, fun q hq => (f.marked.unlisted q hq).imp_right fun hfind => ?_⟩
    · rw [OrdMap.find_insert]
      split
      · nofun
      · exact f.marked.links q hq
    · rw [OrdMap.find_insert, if_neg (by rintro rfl; exact hp hfind), hfind]
  closed := by
    intro q m hq d hd
    rw [OrdMap.find_insert] at hq ⊢
    by_cases hdp : d = p
    · subst hdp
      have hqd : q ≠ d := fun h => not_isBelow_self d (h ▸ hd)
      rw [if_neg hqd, f.find_eq_none_of_isBelow hp hd] at hq
      cases hq
    · rw [if_neg hdp]
      by_cases hqp : q = p
      · exact hparents d (hqp ▸ hd)
      · rw [if_neg hqp] at hq
        exact f.closed q m hq d hd

/-- Remove a path with nothing below it. -/
def remove (f : Folder) (p : Path) (hp : ∀ q, IsBelow p q → f.tree.find q = none) : Folder where
  tree := f.tree.erase p
  rules := f.rules
  links := f.links.filter fun q => q ≠ p
  unlisted := f.unlisted.filter fun q => q ≠ p
  marked := by
    refine ⟨fun q hq => ?_, fun q hq => ?_⟩
    · rw [List.mem_filter, decide_eq_true_eq] at hq
      rw [OrdMap.find_erase, if_neg hq.2]
      exact f.marked.links q hq.1
    · rw [List.mem_filter, decide_eq_true_eq] at hq
      rw [OrdMap.find_erase, if_neg hq.2]
      exact f.marked.unlisted q hq.1
  closed := by
    intro q m hq d hd
    rw [OrdMap.find_erase] at hq ⊢
    split at hq
    · cases hq
    · by_cases hdp : d = p
      · subst hdp
        rw [hp q hd] at hq
        cases hq
      · rw [if_neg hdp]
        exact f.closed q m hq d hd

/-- The directory has no entries. -/
def isEmptyBelow (f : Folder) (p : Path) : Bool :=
  f.tree.entries.all fun entry => !decide (IsBelow p entry.1)

theorem isEmptyBelow_iff {f : Folder} {p : Path} :
    f.isEmptyBelow p = true ↔ ∀ q, IsBelow p q → f.tree.find q = none := by
  simp only [isEmptyBelow, List.all_eq_true, Bool.not_eq_true', decide_eq_false_iff_not]
  constructor
  · intro h q hq
    rw [OrdMap.find_eq_none_iff]
    exact fun v hmem => h (q, v) hmem hq
  · intro h entry hentry hbelow
    have := h entry.1 hbelow
    rw [OrdMap.find_eq_none_iff] at this
    exact this entry.2 hentry

/-! ## `SafeFileWriter` -/

/-- `RejectSymlink`. -/
def rejectSymlink (f : Folder) (p : Path) (message : String) : Except Error Unit :=
  if p ∈ f.links then .error (.invalidArgument message) else .ok ()

/-- `ResumablePartPath`. -/
def partPath (p : Path) : Path := p ++ ascii ".part"

/-- `CommitPart` of a file with the given content: `MoveFileExW` does not replace a directory. -/
def commitContent (f : Folder) (p : Path) (content : Bytes)
    (hparents : ∀ d, IsBelow d p → f.tree.find d = some .directory) : Except Error Folder :=
  if hp : f.tree.find p = some .directory then
    .error (.runtimeError "cannot atomically commit download")
  else .ok (f.put p (.file content) hparents hp)

/-- `SafeFileWriter::WriteAtomically`. -/
def writeAtomically (f : Folder) (p : Path) (bytes : Bytes) : Except Error Folder := do
  resolveTaskPath p
  let g ← f.ensureParents p
  g.1.rejectSymlink p "destination file must not be a symlink"
  g.1.commitContent p bytes g.2

/-- The bytes of a file after a write at an offset; a gap is filled with zeros. -/
def writeAt (content : Bytes) (offset : Nat) (bytes : Bytes) : Bytes :=
  content.take offset ++ List.replicate (offset - content.length) 0 ++ bytes ++
    content.drop (offset + bytes.length)

/-- `SafeFileWriter::WritePartialChunk`. -/
def writePartialChunk (f : Folder) (p : Path) (offset : Nat) (bytes : Bytes) :
    Except Error Folder := do
  if offset > Database.int64Max then throw (.invalidArgument "chunk offset is too large")
  if bytes.length > 2 ^ 64 - 1 - offset then throw (.invalidArgument "chunk range overflows")
  resolveTaskPath p
  let g ← f.ensureParents (partPath p)
  g.1.rejectSymlink p "destination file must not be a symlink"
  g.1.rejectSymlink (partPath p) "partial file must not be a symlink"
  if hp : g.1.tree.find (partPath p) = some .directory then
    throw (.runtimeError "cannot open partial download")
  else
    let content := (g.1.readFile (partPath p)).getD []
    return g.1.put (partPath p) (.file (writeAt content offset bytes)) g.2 hp

/-- `SafeFileWriter::FlushPartial`: a check, as far as the contents go. -/
def flushPartial (f : Folder) (p : Path) : Except Error Unit := do
  resolveTaskPath p
  f.rejectSymlink (partPath p) "partial file must not be a symlink"
  if !f.isRegularFile (partPath p) then
    throw (.runtimeError "partial download does not exist for flush")

/-- `SafeFileWriter::DiscardPartial`. -/
def discardPartial (f : Folder) (p : Path) : Except Error Folder := do
  resolveTaskPath p
  f.rejectSymlink (partPath p) "partial file must not be a symlink"
  match h : f.tree.find (partPath p) with
  | none => pure f
  | some .directory => throw (.runtimeError "cannot discard unsafe partial download")
  | some (.file _) =>
    pure (f.remove (partPath p) fun _ => f.find_eq_none_of_isBelow (by simp [h]))

/-- `SafeFileWriter::CommitPartial`. -/
def commitPartial {H : Type} [ContentHash H] (f : Folder) (p : Path) (expectedSize : Nat)
    (expectedHash : H) : Except Error Folder := do
  resolveTaskPath p
  f.rejectSymlink p "destination file must not be a symlink"
  f.rejectSymlink (partPath p) "partial file must not be a symlink"
  match h : f.tree.find (partPath p) with
  | some (.file content) =>
    if content.length ≠ expectedSize then
      throw (.invalidArgument "partial download size does not match")
    if blake3 content ≠ expectedHash then
      throw (.invalidArgument "partial download hash does not match")
    let g := f.remove (partPath p) fun _ => f.find_eq_none_of_isBelow (by simp [h])
    if hparents : ∀ d ∈ parents p, g.tree.find d = some .directory then
      g.commitContent p content fun d hd => hparents d (mem_parents.mpr hd)
    else throw (.runtimeError "cannot atomically commit download")
  | _ => throw (.runtimeError "partial download does not exist")

/-- `SafeFileWriter::RemoveFile`. -/
def removeFile (f : Folder) (p : Path) : Except Error Folder := do
  resolveTaskPath p
  f.rejectSymlink p "destination file must not be a symlink"
  match h : f.tree.find p with
  | none => pure f
  | some .directory => throw (.invalidArgument "destination deletion requires a regular file")
  | some (.file _) => pure (f.remove p fun _ => f.find_eq_none_of_isBelow (by simp [h]))

/-- `SafeFileWriter::MoveFileToConflict`. -/
def moveFileToConflict (f : Folder) (p conflict : Path) : Except Error Folder := do
  resolveTaskPath p
  resolveTaskPath conflict
  if p = conflict then
    .error (.invalidArgument "conflict destination must differ from source")
  else do
    f.rejectSymlink p "conflict source file must not be a symlink"
    f.rejectSymlink conflict "conflict destination file must not be a symlink"
    match h : f.tree.find p with
    | some (.file content) =>
      if (f.tree.find conflict).isSome then
        .error (.invalidArgument "conflict destination already exists")
      else do
        let g ← (f.remove p fun _ => f.find_eq_none_of_isBelow (by simp [h])).ensureParents conflict
        if hc : g.1.tree.find conflict = some .directory then
          .error (.runtimeError "cannot preserve conflict file")
        else .ok (g.1.put conflict (.file content) g.2 hc)
    | _ => .error (.invalidArgument "conflict source must be a regular file")

/-- `SafeFileWriter::EnsureDirectory`. -/
def ensureDirectory (f : Folder) (p : Path) : Except Error Folder := do
  resolveTaskPath p
  match f.tree.find p with
  | some .directory =>
    if p ∈ f.links then throw (.invalidArgument "synchronized directory path is unsafe") else pure f
  | some (.file _) => throw (.invalidArgument "synchronized directory path is unsafe")
  | none =>
    let g ← f.ensureParents p
    if hp : g.1.tree.find p = some .directory then pure g.1
    else pure (g.1.put p .directory g.2 hp)

/-- `SafeFileWriter::RemoveEmptyDirectory`. -/
def removeEmptyDirectory (f : Folder) (p : Path) : Except Error Folder := do
  resolveTaskPath p
  f.rejectSymlink p "synchronized directory must not be a symlink"
  match f.tree.find p with
  | none => pure f
  | some (.file _) =>
    throw (.invalidArgument "synchronized directory deletion requires a directory")
  | some .directory =>
    if h : f.isEmptyBelow p = true then pure (f.remove p (isEmptyBelow_iff.mp h))
    else throw (.runtimeError "cannot delete non-empty synchronized directory")

/-! ### What the operations do to the paths

Whatever the writer does, it puts something at one path, or takes it away, and creates the
directories above it.  `Put` and `Removed` say this with the path and the two folders, and later
proofs work with them and not with the operations. -/

/-- `g` is `f` with `n` at `p` and directories above it. -/
structure Put (f : Folder) (p : Path) (n : FsNode) (g : Folder) : Prop where
  rules : g.rules = f.rules
  links : g.links = f.links
  find : ∀ q, g.tree.find q =
    if q = p then some n else if IsBelow q p then some .directory else f.tree.find q

/-- `g` is `f` without `p`. -/
structure Removed (f : Folder) (p : Path) (g : Folder) : Prop where
  rules : g.rules = f.rules
  find : ∀ q, g.tree.find q = if q = p then none else f.tree.find q

theorem ensureParents_eq_ok {f : Folder} {p : Path}
    {g : { g : Folder // ∀ d, IsBelow d p → g.tree.find d = some .directory }}
    (h : f.ensureParents p = .ok g) :
    g.1.rules = f.rules ∧ g.1.links = f.links ∧
      ∀ q, g.1.tree.find q = if IsBelow q p then some .directory else f.tree.find q := by
  unfold ensureParents at h
  split at h
  · rename_i t ht
    cases h
    refine ⟨rfl, rfl, fun q => ?_⟩
    rw [find_makeDirectories ht]
    simp only [mem_parents]
  · cases h

theorem put_of_ensureParents {f : Folder} {p : Path} {n : FsNode}
    {g : { g : Folder // ∀ d, IsBelow d p → g.tree.find d = some .directory }}
    (h : f.ensureParents p = .ok g) (hp : g.1.tree.find p ≠ some .directory) :
    Put f p n (g.1.put p n g.2 hp) := by
  obtain ⟨hrules, hlinks, hfind⟩ := ensureParents_eq_ok h
  refine ⟨hrules, hlinks, fun q => ?_⟩
  rw [put, OrdMap.find_insert, hfind]

/-- What is at another path stays. -/
theorem Put.spares {f g : Folder} {p : Path} {n : FsNode}
    {k : { g : Folder // ∀ d, IsBelow d p → g.tree.find d = some .directory }}
    (hput : Put f p n g) (h : f.ensureParents p = .ok k) {q : Path} {m : FsNode} (hq : q ≠ p)
    (hm : f.tree.find q = some m) : g.tree.find q = some m := by
  rw [hput.find, if_neg hq]
  split
  · rename_i hbelow
    cases m with
    | directory => rfl
    | file b =>
      unfold ensureParents at h
      split at h
      · rename_i t ht
        exact absurd hm (not_file_of_makeDirectories ht (mem_parents.mpr hbelow) b)
      · cases h
  · exact hm

/-- `EnsureSafeDirectory` succeeds where no parent is a file or a link. -/
theorem ensureParents_ok {f : Folder} {p : Path} (hlinks : ∀ d, IsBelow d p → d ∉ f.links)
    (h : ∀ d, IsBelow d p → ∀ b, f.tree.find d ≠ some (.file b)) :
    ∃ g, f.ensureParents p = .ok g := by
  obtain ⟨t, ht⟩ : ∃ t, makeDirectories f.links (parents p) f.tree = .ok t :=
    makeDirectories_eq_ok (fun d hd => hlinks d (mem_parents.mp hd)) fun d hd =>
      h d (mem_parents.mp hd)
  unfold ensureParents
  split
  · exact ⟨_, rfl⟩
  · rename_i e he
    rw [ht] at he
    cases he

theorem rejectSymlink_ok {f : Folder} {p : Path} (h : p ∉ f.links) (message : String) :
    f.rejectSymlink p message = .ok () := if_neg h

theorem removed_remove (f : Folder) (p : Path) (hp : ∀ q, IsBelow p q → f.tree.find q = none) :
    Removed f p (f.remove p hp) :=
  ⟨rfl, fun q => OrdMap.find_erase _ _ q⟩

theorem removed_self {f : Folder} {p : Path} (h : f.tree.find p = none) : Removed f p f := by
  refine ⟨rfl, fun q => ?_⟩
  split
  · rename_i hq
    rw [hq, h]
  · rfl

theorem writeAtomically_eq_ok {f g : Folder} {p : Path} {bytes : Bytes}
    (h : f.writeAtomically p bytes = .ok g) : Put f p (.file bytes) g := by
  obtain ⟨_, -, h⟩ := ok_of_bind h
  obtain ⟨k, hk, h⟩ := ok_of_bind h
  obtain ⟨_, -, h⟩ := ok_of_bind h
  rw [commitContent] at h
  split at h
  · cases h
  · rename_i hp
    cases h
    exact put_of_ensureParents hk hp

theorem writePartialChunk_eq_ok {f g : Folder} {p : Path} {offset : Nat} {bytes : Bytes}
    (h : f.writePartialChunk p offset bytes = .ok g) :
    ∃ content, (∀ b, f.tree.find (partPath p) = some (.file b) → content = b) ∧
      (f.tree.find (partPath p) = none → content = []) ∧
      Put f (partPath p) (.file (writeAt content offset bytes)) g := by
  rw [writePartialChunk] at h
  split at h
  · cases h
  · split at h
    · cases h
    · obtain ⟨_, -, h⟩ := ok_of_bind h
      obtain ⟨k, hk, h⟩ := ok_of_bind h
      obtain ⟨_, -, h⟩ := ok_of_bind h
      obtain ⟨_, -, h⟩ := ok_of_bind h
      split at h
      · cases h
      · rename_i hp
        cases h
        have hsame : k.1.tree.find (partPath p) = f.tree.find (partPath p) := by
          rw [(ensureParents_eq_ok hk).2.2, if_neg (not_isBelow_self _)]
        refine ⟨_, fun b hb => ?_, fun hb => ?_, put_of_ensureParents hk hp⟩
        · simp only [readFile, hsame, hb, Option.getD_some]
        · simp only [readFile, hsame, hb, Option.getD_none]

theorem writeAtomically_spares {f g : Folder} {p q : Path} {bytes : Bytes} {m : FsNode}
    (h : f.writeAtomically p bytes = .ok g) (hq : q ≠ p) (hm : f.tree.find q = some m) :
    g.tree.find q = some m := by
  have hput := writeAtomically_eq_ok h
  obtain ⟨_, -, h⟩ := ok_of_bind h
  obtain ⟨k, hk, -⟩ := ok_of_bind h
  exact hput.spares hk hq hm

theorem writePartialChunk_spares {f g : Folder} {p q : Path} {offset : Nat} {bytes : Bytes}
    {m : FsNode} (h : f.writePartialChunk p offset bytes = .ok g) (hq : q ≠ partPath p)
    (hm : f.tree.find q = some m) : g.tree.find q = some m := by
  obtain ⟨_, -, -, hput⟩ := writePartialChunk_eq_ok h
  rw [writePartialChunk] at h
  split at h
  · cases h
  · split at h
    · cases h
    · obtain ⟨_, -, h⟩ := ok_of_bind h
      obtain ⟨k, hk, -⟩ := ok_of_bind h
      exact hput.spares hk hq hm

/-- The part file lies next to its destination. -/
theorem isBelow_partPath {d p : Path} : IsBelow d (partPath p) ↔ IsBelow d p := by
  refine ⟨?_, fun h => h.trans (List.prefix_append _ _)⟩
  rintro ⟨t, ht⟩
  rcases List.append_eq_append_iff.mp ht with ⟨c, hp, -⟩ | ⟨c, hd, hpart⟩
  · exact ⟨c, hp.symm⟩
  · rcases List.eq_nil_or_concat c with rfl | ⟨c, x, rfl⟩
    · rw [IsBelow, hd, List.append_nil]
    · have hx : x = slash := by
        rw [below, List.concat_eq_append, ← List.append_assoc] at hd
        exact (List.cons.inj (List.append_inj_right' hd rfl)).1.symm
      have hmem : slash ∈ ascii ".part" := by
        rw [hpart, hx]
        simp
      exact absurd hmem (by decide +kernel)

theorem partPath_ne (p : Path) : p ≠ partPath p := by simp [partPath, ascii]

/-- A file can be received at `p`. -/
structure Receives (f : Folder) (p : Path) : Prop where
  resolves : resolveTaskPath p = .ok ()
  links : ∀ q, (q = p ∨ q = partPath p ∨ IsBelow q p) → q ∉ f.links
  parents : ∀ d, IsBelow d p → ∀ b, f.tree.find d ≠ some (.file b)
  destination : f.tree.find p ≠ some .directory
  part : f.tree.find (partPath p) ≠ some .directory

/-- What the part file holds; nothing when there is none. -/
def partContent (f : Folder) (p : Path) : Bytes := (f.readFile (partPath p)).getD []

theorem Receives.writePartialChunk {f : Folder} {p : Path} (h : f.Receives p) {offset : Nat}
    {bytes : Bytes} (hoffset : offset ≤ Database.int64Max)
    (hend : bytes.length ≤ 2 ^ 64 - 1 - offset) :
    ∃ g, f.writePartialChunk p offset bytes = .ok g ∧
      Put f (partPath p) (.file (writeAt (f.partContent p) offset bytes)) g := by
  obtain ⟨g, hg⟩ : ∃ g, f.ensureParents (partPath p) = .ok g :=
    ensureParents_ok (fun d hd => h.links d (.inr (.inr (isBelow_partPath.mp hd)))) fun d hd =>
      h.parents d (isBelow_partPath.mp hd)
  obtain ⟨-, hlinks, hfind⟩ := ensureParents_eq_ok hg
  have hsame : g.1.tree.find (partPath p) = f.tree.find (partPath p) := by
    rw [hfind, if_neg (not_isBelow_self _)]
  have hdestination : p ∉ g.1.links := hlinks ▸ h.links p (.inl rfl)
  have hpartial : partPath p ∉ g.1.links := hlinks ▸ h.links _ (.inr (.inl rfl))
  have hcontent : g.1.readFile (partPath p) = f.readFile (partPath p) := by
    rw [readFile, readFile, hsame]
  have hpart : g.1.tree.find (partPath p) ≠ some .directory := hsame ▸ h.part
  refine ⟨_, ?_, put_of_ensureParents hg hpart⟩
  rw [Folder.writePartialChunk, if_neg (not_lt.mpr hoffset), if_neg (not_lt.mpr hend),
    h.resolves, hg]
  simp only [bind, Except.bind, pure, Except.pure, rejectSymlink_ok hdestination,
    rejectSymlink_ok hpartial, dif_neg hpart, hcontent]
  rfl

/-- A write to the part file leaves the destination free. -/
theorem Receives.of_put {f g : Folder} {p : Path} {b : Bytes} (h : f.Receives p)
    (hput : Put f (partPath p) (.file b) g) : g.Receives p where
  resolves := h.resolves
  links q hq := hput.links ▸ h.links q hq
  parents d hd c := by
    have hne : d ≠ partPath p := fun heq =>
      not_isBelow_self (partPath p) (isBelow_partPath.mpr (heq ▸ hd))
    rw [hput.find, if_neg hne, if_pos (isBelow_partPath.mpr hd)]
    nofun
  destination := by
    have hnot : ¬ IsBelow p (partPath p) := fun hp => not_isBelow_self p (isBelow_partPath.mp hp)
    rw [hput.find, if_neg (partPath_ne p), if_neg hnot]
    exact h.destination
  part := by
    rw [hput.find, if_pos rfl]
    simp

theorem discardPartial_eq_ok {f g : Folder} {p : Path} (h : f.discardPartial p = .ok g) :
    Removed f (partPath p) g := by
  obtain ⟨_, -, h⟩ := ok_of_bind h
  obtain ⟨_, -, h⟩ := ok_of_bind h
  split at h
  · rename_i hp
    cases h
    exact removed_self hp
  · cases h
  · cases h
    exact removed_remove _ _ _

theorem removeFile_eq_ok {f g : Folder} {p : Path} (h : f.removeFile p = .ok g) :
    Removed f p g := by
  obtain ⟨_, -, h⟩ := ok_of_bind h
  obtain ⟨_, -, h⟩ := ok_of_bind h
  split at h
  · rename_i hp
    cases h
    exact removed_self hp
  · cases h
  · cases h
    exact removed_remove _ _ _

theorem removeEmptyDirectory_eq_ok {f g : Folder} {p : Path}
    (h : f.removeEmptyDirectory p = .ok g) : Removed f p g := by
  obtain ⟨_, -, h⟩ := ok_of_bind h
  obtain ⟨_, -, h⟩ := ok_of_bind h
  split at h
  · rename_i hp
    cases h
    exact removed_self hp
  · cases h
  · split at h
    · cases h
      exact removed_remove _ _ _
    · cases h

theorem commitPartial_eq_ok {H : Type} [ContentHash H] {f g : Folder} {p : Path} {size : Nat}
    {hash : H} (h : f.commitPartial p size hash = .ok g) :
    ∃ content, f.tree.find (partPath p) = some (.file content) ∧ content.length = size ∧
      blake3 content = hash ∧ f.tree.find p ≠ some .directory ∧ g.rules = f.rules ∧
      ∀ q, g.tree.find q =
        if q = p then some (.file content)
        else if q = partPath p then none else f.tree.find q := by
  obtain ⟨_, -, h⟩ := ok_of_bind h
  obtain ⟨_, -, h⟩ := ok_of_bind h
  obtain ⟨_, -, h⟩ := ok_of_bind h
  split at h
  · rename_i content hpart
    simp only at h
    split at h
    · cases h
    · rename_i hsize
      split at h
      · cases h
      · rename_i hhash
        split at h
        · rw [commitContent] at h
          split at h
          · cases h
          · rename_i hp
            cases h
            have hne : p ≠ partPath p := by simp [partPath, ascii]
            refine ⟨content, hpart, not_not.mp hsize, not_not.mp hhash, ?_, rfl, fun q => ?_⟩
            · rwa [remove, OrdMap.find_erase, if_neg hne] at hp
            · rw [put, OrdMap.find_insert, remove, OrdMap.find_erase]
        · cases h
  · cases h

/-- A part file with the right content is committed, unless a directory is in its place. -/
theorem commitPartial_ok {H : Type} [ContentHash H] {f : Folder} {p : Path} {content : Bytes}
    (hresolves : resolveTaskPath p = .ok ()) (hlinks : p ∉ f.links ∧ partPath p ∉ f.links)
    (hpart : f.tree.find (partPath p) = some (.file content))
    (hp : f.tree.find p ≠ some .directory) :
    ∃ g, f.commitPartial p content.length (blake3 content : H) = .ok g := by
  rw [commitPartial, hresolves, rejectSymlink_ok hlinks.1, rejectSymlink_ok hlinks.2]
  simp only [bind, Except.bind]
  split
  · rename_i c hc
    obtain rfl : c = content := by simpa using hc.symm.trans hpart
    simp only [ne_eq, not_true_eq_false, if_false]
    have hparents : ∀ hbelow, ∀ d ∈ parents p,
        (f.remove (partPath p) hbelow).tree.find d = some .directory := by
      intro _ d hd
      have hbelow := isBelow_partPath.mpr (mem_parents.mp hd)
      have hne : d ≠ partPath p := fun heq => not_isBelow_self (partPath p) (heq ▸ hbelow)
      rw [remove, OrdMap.find_erase, if_neg hne]
      exact f.closed _ _ hpart d hbelow
    rw [dif_pos (hparents _), commitContent, dif_neg]
    · exact ⟨_, rfl⟩
    · rw [remove, OrdMap.find_erase, if_neg (partPath_ne p)]
      exact hp
  · rename_i hnot
    exact absurd hpart (hnot content)

theorem moveFileToConflict_eq_ok {f g : Folder} {p conflict : Path}
    (h : f.moveFileToConflict p conflict = .ok g) :
    ∃ content, f.tree.find p = some (.file content) ∧ f.tree.find conflict = none ∧
      p ≠ conflict ∧ g.rules = f.rules ∧
      ∀ q, g.tree.find q =
        if q = conflict then some (.file content)
        else if IsBelow q conflict then some .directory
        else if q = p then none else f.tree.find q := by
  obtain ⟨_, -, h⟩ := ok_of_bind h
  obtain ⟨_, -, h⟩ := ok_of_bind h
  split at h
  · cases h
  · rename_i hne
    obtain ⟨_, -, h⟩ := ok_of_bind h
    obtain ⟨_, -, h⟩ := ok_of_bind h
    split at h
    · rename_i content hp
      split at h
      · cases h
      · rename_i hc
        obtain ⟨k, hk, h⟩ := ok_of_bind h
        split at h
        · cases h
        · cases h
          obtain ⟨hrules, -, hfind⟩ := ensureParents_eq_ok hk
          refine ⟨content, hp, by simpa using hc, hne, hrules, fun q => ?_⟩
          rw [put, OrdMap.find_insert, hfind, remove, OrdMap.find_erase]
    · cases h

theorem ensureDirectory_eq_ok {f g : Folder} {p : Path} (h : f.ensureDirectory p = .ok g) :
    Put f p .directory g := by
  obtain ⟨_, -, h⟩ := ok_of_bind h
  split at h
  · rename_i hp
    split at h
    · cases h
    cases h
    refine ⟨rfl, rfl, fun q => ?_⟩
    split
    · rename_i hq
      rw [hq, hp]
    · split
      · rename_i hbelow
        exact f.closed p _ hp q hbelow
      · rfl
  · cases h
  · rename_i hp
    obtain ⟨k, hk, h⟩ := ok_of_bind h
    split at h
    · rename_i hdir
      rw [(ensureParents_eq_ok hk).2.2, if_neg (not_isBelow_self _), hp] at hdir
      cases hdir
    · cases h
      exact put_of_ensureParents hk _

theorem ensureDirectory_spares {f g : Folder} {p q : Path} {m : FsNode}
    (h : f.ensureDirectory p = .ok g) (hq : q ≠ p) (hm : f.tree.find q = some m) :
    g.tree.find q = some m := by
  have hput := ensureDirectory_eq_ok h
  obtain ⟨_, -, h⟩ := ok_of_bind h
  split at h
  · split at h
    · cases h
    cases h
    exact hm
  · cases h
  · obtain ⟨k, hk, -⟩ := ok_of_bind h
    exact hput.spares hk hq hm

/-! ## `IgnoreRules::LoadFile` and `ManifestScanner`

The scanner goes through the tree with a recursive iterator.  What the iterator comes to is
`listed`, in an order that the scanner does not rely on, since it sorts by path at the end; so the
tree, which is in path order, is walked in that order from the beginning. -/

/-- `IgnoreRules::LoadFile`. -/
def loadRules (f : Folder) : Except Error IgnoreRules := IgnoreRules.load f.rules

/-- `IgnorePolicy::ReadRules`. -/
def readRules (f : Folder) : Except Error Bytes := do
  IgnoreRules.validate f.rules
  pure f.rules

end Folder

/-- `storage::SnapshotEntry`.  A `contentHash` is there for files only. -/
structure SnapshotEntry (H : Type) where
  relativePath : Path
  isFile : Bool
  size : Nat
  mtimeNs : Int
  contentHash : Option H
  deriving DecidableEq

namespace Folder

variable {H : Type} [ContentHash H]

/-- The entry of one path in a scan. -/
def snapshotEntry (mtime : Path → Int) (p : Path) : FsNode → SnapshotEntry H
  | .file content => ⟨p, true, content.length, mtime p, some (blake3 content)⟩
  | .directory => ⟨p, false, 0, mtime p, none⟩

/-- The walk of `ManifestScanner::Scan` does not come to the path.  The walk skips a symbolic link
and does not go into it; and it does not go into a directory that may not be listed, the task root
included. -/
def Hidden (f : Folder) (p : Path) : Prop :=
  [] ∈ f.unlisted ∨ p ∈ f.links ∨ ∃ d ∈ parents p, d ∈ f.links ∨ d ∈ f.unlisted

instance (f : Folder) (p : Path) : Decidable (f.Hidden p) :=
  inferInstanceAs (Decidable (_ ∨ _ ∨ _))

/-- What the walk comes to, in path order. -/
def listed (f : Folder) : List (Path × FsNode) := f.tree.entries.filter fun e => ¬f.Hidden e.1

/-- Nothing is hidden in a folder without links, every directory of which may be listed. -/
theorem not_hidden {f : Folder} (hlinks : f.links = []) (hunlisted : f.unlisted = []) (p : Path) :
    ¬f.Hidden p := by
  simp [Hidden, hlinks, hunlisted]

theorem mem_listed {f : Folder} {p : Path} {n : FsNode} :
    (p, n) ∈ f.listed ↔ f.tree.find p = some n ∧ ¬f.Hidden p := by
  rw [listed, List.mem_filter, ← OrdMap.find_eq_some_iff, decide_eq_true_eq]

/-- The walk of `ManifestScanner::Scan`. -/
def scanEntries (rules : IgnoreRules) (mtime : Path → Int) :
    List (Path × FsNode) → Except Error (List (SnapshotEntry H))
  | [] => .ok []
  | (p, n) :: rest => do
    let ignored ← rules.isIgnored p
    let snapshot ← scanEntries rules mtime rest
    pure (if ignored then snapshot else snapshotEntry mtime p n :: snapshot)

/-- `ManifestScanner::Scan`: what is listed and not ignored, in path order.  `mtime` gives the time
stamps the file system reports. -/
def scan (f : Folder) (rules : IgnoreRules) (mtime : Path → Int) :
    Except Error (List (SnapshotEntry H)) :=
  scanEntries rules mtime f.listed

end Folder

end VeritasSync
