import VeritasSync.Storage.Folder

/-!
# Where `ResolveTaskPath` leads

The path of a file below the task root comes from the peer.  `ResolveTaskPath` looks at every
component of it, appends it to the root, removes the dots and checks that the result is still below
the root.

`Folder.resolveTaskPath` has the checks of the components and leaves out the rest.  Here the
function is modelled with the path it returns; `resolveTaskPath_eq` shows that the rest never
refuses anything.

## What is here

* `NativePath` — a path of the platform, and the lexical operations on it.
* `NativePath.resolveTaskPath_eq` — what `ResolveTaskPath` returns, and when.
* `Contained`, `contained_iff` — what it ought to return, and **exactly when it does**.

Windows ignores trailing spaces in the part of a name before its first dot when it looks for a
device.  `ResolveTaskPath` does not remove them, so it lets `NUL .txt` pass.

Paths are well-formed UTF-8.  `Utf8Path` turns the text into UTF-16 before anything is checked, and
what the library makes of other bytes is not modelled; for well-formed texts the checks may as well
look at the bytes, since all the characters they ask about are ASCII.
-/

set_option autoImplicit false

namespace VeritasSync

open Folder

/-- The name of the parent directory. -/
def dotDot : Bytes := [dot, dot]

/-- A name that is neither empty nor one of the two with a meaning of their own. -/
def PlainName (name : Bytes) : Prop := name ≠ [] ∧ name ≠ [dot] ∧ name ≠ dotDot

/-! ## Native paths

The functions of `std::filesystem::path` that the source uses are lexical, and the standard says
what they do.  They are modelled with the path as its iterator shows it, since that is how the
standard describes them. -/

/-- A `std::filesystem::path` of the platform, taken apart as its iterator does it: an empty name at
the end stands for a separator there. -/
structure NativePath where
  rootName : Bytes
  rootDirectory : Bool
  names : List Bytes
  deriving DecidableEq

namespace NativePath

/-- The path of a text that starts neither with a drive nor with a separator. -/
def ofRelative (text : Bytes) : NativePath := ⟨[], false, nativeComponents text⟩

/-- `path::is_absolute`: on Windows a path needs both a root name and a root directory for that. -/
def isAbsolute (p : NativePath) : Bool := p.rootName ≠ [] && p.rootDirectory

/-- `path::empty`: neither a root nor a component. -/
def isEmpty (p : NativePath) : Bool := p = ⟨[], false, []⟩

/-- `operator/` of a path that does not end in a separator with one that has no root. -/
def append (p q : NativePath) : NativePath := { p with names := p.names ++ q.names }

/-- One name of `path::lexically_normal`.  The names kept so far are on a stack. -/
def normalStep (rooted : Bool) (kept : List Bytes) (name : Bytes) : List Bytes :=
  if name = [] ∨ name = [dot] then kept
  else if name = dotDot then
    match kept with
    | [] => if rooted then [] else [name]
    | last :: rest => if last = dotDot then name :: kept else rest
  else name :: kept

/-- `path::lexically_normal`: dots are dropped, and a component that a `..` follows goes with it. -/
def lexicallyNormal (p : NativePath) : NativePath :=
  let kept := p.names.foldl (normalStep p.rootDirectory) []
  -- what a dot at the end leaves is a directory
  let isOpen := p.names.getLast?.any fun name => name = [] || name = [dot] || name = dotDot
  let names := kept.reverse ++
    if isOpen && kept.head?.any fun last => last ≠ dotDot then [[]] else []
  if p.isEmpty then p
  else if names = [] ∧ p.rootName = [] ∧ !p.rootDirectory then { p with names := [[dot]] }
  else { p with names }

/-- What two lists have after their common beginning. -/
def dropCommon : List Bytes → List Bytes → List Bytes × List Bytes
  | a :: as, b :: bs => if a = b then dropCommon as bs else (a :: as, b :: bs)
  | as, bs => (as, bs)

/-- `path::lexically_relative`: how to get from the base to the path by names alone. -/
def lexicallyRelative (p base : NativePath) : NativePath :=
  if p.rootName ≠ base.rootName ∨ p.isAbsolute ≠ base.isAbsolute ∨
      (!p.rootDirectory && base.rootDirectory) then ⟨[], false, []⟩
  else
    let (rest, above) := dropCommon p.names base.names
    let up := above.countP fun name => name ≠ [] && name ≠ [dot] && name ≠ dotDot
    let down := above.countP fun name => name = dotDot
    if rest = [] ∧ above = [] then ⟨[], false, [[dot]]⟩
    else if up < down then ⟨[], false, []⟩
    else if up = down ∧ (rest = [] ∨ rest.head? = some []) then ⟨[], false, [[dot]]⟩
    else ⟨[], false, List.replicate (up - down) dotDot ++ rest⟩

/-- `IsDescendant`: the path that leads from the one to the other has no `..` in it. -/
def isDescendant (root candidate : NativePath) : Bool :=
  let relative := candidate.lexicallyRelative root
  if relative.isEmpty then candidate = root
  else if relative.names.any fun component => component = dotDot then false
  else !relative.isAbsolute

/-- `ResolveTaskPath`, for the canonical path of an existing task root. -/
def resolveTaskPath (root : NativePath) (relativePath : Path) : Except Error NativePath := do
  if relativePath = [] then
    throw (.invalidArgument "task root and relative path are required")
  if relativePath.head?.any isSeparator ∨
      (relativePath.head?.any isLetter ∧ relativePath[1]? = some ':'.toUInt8) then
    throw (.invalidArgument "absolute paths are not allowed")
  let relative := ofRelative relativePath
  relative.names.forM checkComponent
  let candidate := (root.append relative).lexicallyNormal
  if !isDescendant root candidate ∨ candidate = root then
    throw (.invalidArgument "path resolves outside task root")
  pure candidate

/-- What `weakly_canonical` returns for an existing directory. -/
structure Canonical (root : NativePath) : Prop where
  absolute : root.isAbsolute = true
  plain : ∀ name ∈ root.names, PlainName name

/-! ### Plain names -/

theorem foldl_normalStep {rooted : Bool} {names : List Bytes} (h : ∀ name ∈ names, PlainName name)
    (kept : List Bytes) : names.foldl (normalStep rooted) kept = names.reverse ++ kept := by
  induction names generalizing kept with
  | nil => rfl
  | cons name names ih =>
    obtain ⟨⟨hne, hdot, hdotDot⟩, hrest⟩ := List.forall_mem_cons.mp h
    have hstep : normalStep rooted kept name = name :: kept := by
      rw [normalStep.eq_def, if_neg (not_or.mpr ⟨hne, hdot⟩), if_neg hdotDot]
    rw [List.foldl_cons, hstep, ih hrest, List.reverse_cons, List.append_assoc]
    rfl

/-- A path of plain names is in normal form. -/
theorem lexicallyNormal_of_plain {p : NativePath} (hnames : p.names ≠ [])
    (h : ∀ name ∈ p.names, PlainName name) : p.lexicallyNormal = p := by
  have hlast : (p.names.getLast?.any fun name =>
      name = [] || name = [dot] || name = dotDot) = false := by
    rw [List.getLast?_eq_some_getLast hnames, Option.any_some]
    obtain ⟨hne, hdot, hdotDot⟩ := h _ (List.getLast_mem hnames)
    simp [hne, hdot, hdotDot]
  have hempty : p.isEmpty = false := decide_eq_false fun heq => hnames (by rw [heq])
  rw [lexicallyNormal, hlast, hempty, foldl_normalStep h, List.append_nil, List.reverse_reverse,
    Bool.false_and]
  simp [hnames]

theorem dropCommon_append (names rest : List Bytes) :
    dropCommon (names ++ rest) names = (rest, []) := by
  induction names with
  | nil => cases rest <;> rfl
  | cons name names ih => rw [List.cons_append, dropCommon, if_pos rfl, ih]

/-- A path below the root is one of its descendants. -/
theorem isDescendant_append {root : NativePath} {names : List Bytes} (hnames : names ≠ [])
    (h : ∀ name ∈ names, PlainName name) :
    isDescendant root { root with names := root.names ++ names } = true := by
  have hrelative : lexicallyRelative { root with names := root.names ++ names } root =
      ⟨[], false, names⟩ := by
    have hhead : names.head? ≠ some [] := fun hhead => (h [] (List.mem_of_mem_head? hhead)).1 rfl
    rw [lexicallyRelative, if_neg (by simp [isAbsolute])]
    dsimp only
    rw [dropCommon_append]
    simp [hnames, hhead]
  have hdotDot : (names.any fun component => component = dotDot) = false :=
    List.any_eq_false.mpr fun name hname => by simpa using (h name hname).2.2
  rw [isDescendant, hrelative]
  dsimp only
  rw [hdotDot, isEmpty, decide_eq_false (by simp [hnames])]
  rfl

theorem plainName_of_checkComponent {c : Bytes} (h : checkComponent c = .ok ()) : PlainName c :=
  (checkComponent_eq_ok h).1

theorem nativeComponents_ne_nil (p : Path) : nativeComponents p ≠ [] :=
  List.append_ne_nil_of_right_ne_nil _ (List.cons_ne_nil _ _)

/-- **What `ResolveTaskPath` returns**: the components below the root.  What is left to do once they
have been checked refuses nothing. -/
theorem resolveTaskPath_eq {root : NativePath} (hroot : root.Canonical) (p : Path) :
    resolveTaskPath root p = (Folder.resolveTaskPath p).map fun _ =>
      { root with names := root.names ++ nativeComponents p } := by
  rw [resolveTaskPath, Folder.resolveTaskPath]
  split
  · rfl
  split
  · rfl
  dsimp only
  show ((nativeComponents p).forM checkComponent >>= fun _ => _) = _
  cases hcheck : (nativeComponents p).forM checkComponent with
  | error e => rfl
  | ok u =>
    have hplain : ∀ name ∈ nativeComponents p, PlainName name := fun name hname =>
      plainName_of_checkComponent (forM_eq_ok hcheck name hname)
    have hne := nativeComponents_ne_nil p
    have hnormal : (root.append (ofRelative p)).lexicallyNormal =
        { root with names := root.names ++ nativeComponents p } := by
      refine lexicallyNormal_of_plain (List.append_ne_nil_of_right_ne_nil _ hne)
        fun name hname => ?_
      exact (List.mem_append.mp hname).elim (hroot.plain name) (hplain name)
    have hdifferent : ({ root with names := root.names ++ nativeComponents p } : NativePath) ≠
        root := fun heq => hne (List.append_right_eq_self.mp (congrArg NativePath.names heq))
    show (if _ then _ else _ : Except Error NativePath) = _
    rw [hnormal, isDescendant_append hne hplain, if_neg (by simp [hdifferent])]
    rfl

end NativePath

/-! ## Devices

Windows looks for a device name in the part of a file name before its first dot, and drops blanks at
the end of that part first.  The check in the source compares the part as it is. -/

/-- The names of the DOS devices. -/
def dosDevices : List Bytes :=
  ["CON", "PRN", "AUX", "NUL", "COM1", "COM2", "COM3", "COM4", "COM5", "COM6", "COM7", "COM8",
    "COM9", "LPT1", "LPT2", "LPT3", "LPT4", "LPT5", "LPT6", "LPT7", "LPT8", "LPT9"].map ascii

/-- The part of a name before its first dot. -/
def baseOf (name : Bytes) : Bytes := name.takeWhile fun c => c ≠ dot

/-- A name without the spaces at its end. -/
def trimSpaces (name : Bytes) : Bytes := name.rdropWhile fun c => c = ' '.toUInt8

/-- Windows takes the name for that of a device. -/
def NamesDevice (name : Bytes) : Prop := (trimSpaces (baseOf name)).map toUpper ∈ dosDevices

/-- The name of a device, then a space at least, then a dot. -/
def NamesDeviceWithSpaces (name : Bytes) : Prop :=
  NamesDevice name ∧ (baseOf name).getLast? = some ' '.toUInt8

instance (name : Bytes) : Decidable (NamesDevice name) :=
  inferInstanceAs (Decidable (_ ∈ dosDevices))

instance (name : Bytes) : Decidable (NamesDeviceWithSpaces name) :=
  inferInstanceAs (Decidable (_ ∧ _))

/-- A digit after the name of a port. -/
theorem port_mem_dosDevices {d : UInt8} (hlow : '1'.toUInt8 ≤ d) (hhigh : d ≤ '9'.toUInt8) :
    ascii "COM" ++ [d] ∈ dosDevices ∧ ascii "LPT" ++ [d] ∈ dosDevices := by
  rw [UInt8.le_iff_toNat_le] at hlow hhigh
  have hd : d = UInt8.ofNat d.toNat := by simp
  have hlow' : 49 ≤ d.toNat := hlow
  have hhigh' : d.toNat ≤ 57 := hhigh
  rw [hd]
  generalize d.toNat = k at hlow' hhigh'
  interval_cases k <;> decide +kernel

/-- The comparisons of `ResolveTaskPath` are with the names in the list. -/
theorem isDeviceName_iff (name : Bytes) :
    isDeviceName name = true ↔ (baseOf name).map toUpper ∈ dosDevices := by
  rw [isDeviceName, baseOf]
  generalize (name.takeWhile fun c => c ≠ dot).map toUpper = base
  constructor
  · intro h
    simp only [Bool.or_eq_true, Bool.and_eq_true, decide_eq_true_eq] at h
    rcases h with (((rfl | rfl) | rfl) | rfl) | ⟨⟨hlength, hport⟩, hdigit⟩
    · decide
    · decide
    · decide
    · decide
    · have hlast : ∃ d, base = base.take 3 ++ [d] := by
        obtain ⟨a, b, c, d, rfl⟩ : ∃ a b c d, base = [a, b, c, d] := List.length_eq_four.mp hlength
        exact ⟨d, rfl⟩
      obtain ⟨d, hbase⟩ := hlast
      have hthree : (base.take 3).length = 3 := by rw [List.length_take, hlength]; rfl
      rw [hbase, List.getElem?_append_right (by rw [hthree]), hthree] at hdigit
      simp only [Nat.sub_self, List.getElem?_cons_zero, Option.any_some, Bool.and_eq_true,
        decide_eq_true_eq] at hdigit
      obtain ⟨hcom, hlpt⟩ := port_mem_dosDevices hdigit.1 hdigit.2
      rw [hbase]
      rcases hport with hport | hport
      · have hprefix : ascii "COM" = base.take 3 := List.prefix_iff_eq_take.mp hport
        rwa [← hprefix]
      · have hprefix : ascii "LPT" = base.take 3 := List.prefix_iff_eq_take.mp hport
        rwa [← hprefix]
  · intro h
    rw [dosDevices] at h
    fin_cases h <;> decide

/-- Among the names that pass the checks, those with spaces are the devices. -/
theorem namesDevice_iff {name : Bytes} (h : checkComponent name = .ok ()) :
    NamesDevice name ↔ NamesDeviceWithSpaces name := by
  refine ⟨fun hdevice => ⟨hdevice, ?_⟩, fun hspaces => hspaces.1⟩
  by_contra hlast
  have htrim : trimSpaces (baseOf name) = baseOf name := by
    refine List.rdropWhile_eq_self_iff.mpr fun hne hspace => hlast ?_
    rw [List.getLast?_eq_some_getLast hne, of_decide_eq_true hspace]
  have hrefused : isDeviceName name = true := by
    rw [isDeviceName_iff, ← htrim]
    exact hdevice
  rw [checkComponent] at h
  split at h
  · cases h
  split at h
  · cases h
  · cases h

/-! ## Containment

What a caller relies on: the result is the root with the components of the text after it, none of
them has a meaning of its own, and none names a device.  All but the last hold for every path that
is accepted. -/

/-- The path starts with a drive or a separator. -/
def IsRooted (p : Path) : Prop :=
  p.head?.any isSeparator ∨ (p.head?.any isLetter ∧ p[1]? = some ':'.toUInt8)

theorem resolveTaskPath_eq_ok_iff {p : Path} : Folder.resolveTaskPath p = .ok () ↔
    p ≠ [] ∧ ¬ IsRooted p ∧ ∀ name ∈ nativeComponents p, checkComponent name = .ok () := by
  rw [Folder.resolveTaskPath]
  split
  · rename_i hnil
    exact ⟨by rintro ⟨⟩, fun h => absurd hnil h.1⟩
  rename_i hne
  split
  · rename_i hrooted
    exact ⟨by rintro ⟨⟩, fun h => absurd hrooted h.2.1⟩
  rename_i hrooted
  refine ⟨fun h => ⟨hne, hrooted, forM_eq_ok h⟩, fun h => ?_⟩
  have hall := h.2.2
  show (nativeComponents p).forM checkComponent = .ok ()
  generalize nativeComponents p = names at hall
  induction names with
  | nil => rfl
  | cons name names ih =>
    obtain ⟨hname, hnames⟩ := List.forall_mem_cons.mp hall
    show (checkComponent name >>= fun _ => names.forM checkComponent) = .ok ()
    rw [hname]
    exact ih hnames

/-- A component that may be created below the root. -/
structure SafeName (name : Bytes) : Prop where
  plain : PlainName name
  colon : ':'.toUInt8 ∉ name
  control : ∀ c ∈ name, 32 ≤ c.toNat ∧ c ≠ 127
  last : name.getLast? ≠ some ' '.toUInt8 ∧ name.getLast? ≠ some dot
  device : ¬ NamesDevice name

/-- What `ResolveTaskPath` returns is the root followed by the components of the text, which are
safe. -/
def Contained (root : NativePath) (p : Path) : Prop :=
  ∀ q, NativePath.resolveTaskPath root p = .ok q → ∃ names,
    names = (p.splitOnP isSeparator).filter (· ≠ []) ∧ names ≠ [] ∧
    q = { root with names := root.names ++ names } ∧ ∀ name ∈ names, SafeName name

theorem nativeComponents_eq_filter {p : Path}
    (h : ∀ name ∈ nativeComponents p, checkComponent name = .ok ()) :
    nativeComponents p = (p.splitOnP isSeparator).filter (· ≠ []) := by
  have hne : p.splitOnP isSeparator ≠ [] := List.splitOnP_ne_nil _ _
  have hlast : (p.splitOnP isSeparator).getLastD [] = (p.splitOnP isSeparator).getLast hne := by
    rw [List.getLastD_eq_getLast?, List.getLast?_eq_some_getLast hne, Option.getD_some]
  have hplain := (NativePath.plainName_of_checkComponent
    (h ((p.splitOnP isSeparator).getLastD []) (List.mem_append_right _ List.mem_cons_self))).1
  rw [nativeComponents]
  rw [hlast] at hplain ⊢
  conv_rhs => rw [← List.dropLast_append_getLast hne, List.filter_append]
  rw [List.filter_cons_of_pos (by simpa using hplain), List.filter_nil]

/-- The checks of a component leave only the devices. -/
theorem safeName_iff {name : Bytes} (h : checkComponent name = .ok ()) :
    SafeName name ↔ ¬ NamesDeviceWithSpaces name := by
  rw [← namesDevice_iff h]
  refine ⟨fun hsafe => hsafe.device, fun hdevice => ?_⟩
  have hplain := NativePath.plainName_of_checkComponent h
  rw [checkComponent] at h
  split at h
  · cases h
  split at h
  · cases h
  rename_i hchars
  simp only [not_or] at hchars
  refine ⟨hplain, hchars.2.2.1, fun c hc => ?_, ⟨hchars.1, hchars.2.1⟩, hdevice⟩
  have hcontrol := hchars.2.2.2
  rw [Bool.not_eq_true, List.any_eq_false] at hcontrol
  have := hcontrol c hc
  simp only [decide_eq_true_eq, not_or, not_lt] at this
  exact this

/-- **`ResolveTaskPath` is safe** exactly for the paths without a component that names a device with
spaces after it, and for those it refuses for another reason.  It is stated for every list of bytes;
about the program it speaks where they are well-formed UTF-8, which is all that `Utf8Path` takes. -/
theorem contained_iff {root : NativePath} (hroot : root.Canonical) (p : Path) :
    Contained root p ↔ (p ≠ [] → ¬ IsRooted p →
      (∀ name ∈ nativeComponents p, checkComponent name = .ok ()) →
      ∀ name ∈ nativeComponents p, ¬ NamesDeviceWithSpaces name) := by
  have hresolve := NativePath.resolveTaskPath_eq hroot p
  constructor
  · intro hcontained hne hrooted hcheck name hname
    rw [resolveTaskPath_eq_ok_iff.mpr ⟨hne, hrooted, hcheck⟩] at hresolve
    obtain ⟨names, hnames, -, -, hsafe⟩ := hcontained _ hresolve
    rw [← nativeComponents_eq_filter hcheck] at hnames
    exact (safeName_iff (hcheck name hname)).mp (hsafe name (hnames ▸ hname))
  · intro hdevices q hq
    rw [hresolve] at hq
    obtain ⟨_, hok, hq⟩ := ok_of_map hq
    obtain ⟨hne, hrooted, hcheck⟩ := resolveTaskPath_eq_ok_iff.mp hok
    have hfilter := nativeComponents_eq_filter hcheck
    refine ⟨_, rfl, hfilter ▸ NativePath.nativeComponents_ne_nil p, hfilter ▸ hq.symm, ?_⟩
    rw [← hfilter]
    exact fun name hname =>
      (safeName_iff (hcheck name hname)).mpr (hdevices hne hrooted hcheck name hname)

/-- A task root on a drive, for the examples below. -/
def sampleRoot : NativePath := ⟨ascii "C:", true, [ascii "Task"]⟩

theorem sampleRoot_canonical : sampleRoot.Canonical := by
  refine ⟨by decide, fun name hname => ?_⟩
  rw [List.mem_singleton.mp hname]
  exact ⟨by decide, by decide, by decide⟩

/-- The device passes: the name is cut at the dot and still has its blank, so it is none of the
reserved names. -/
theorem not_contained_device : ¬ Contained sampleRoot (ascii "NUL .txt") := by
  intro h
  obtain ⟨names, rfl, -, -, hsafe⟩ := h ⟨ascii "C:", true, [ascii "Task", ascii "NUL .txt"]⟩ rfl
  exact (hsafe (ascii "NUL .txt") (by decide)).device (by decide)

theorem contained_iff_file : Contained sampleRoot (ascii "a/b.txt") :=
  (contained_iff sampleRoot_canonical (ascii "a/b.txt")).mpr fun _ _ _ => by decide

end VeritasSync
