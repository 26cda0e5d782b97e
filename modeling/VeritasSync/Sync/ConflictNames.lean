import VeritasSync.Sync.Scan
import VeritasSync.Sync.VersionResolution
import VeritasSync.Sync.World
import VeritasSync.Tracker.Text

/-!
# The names of conflict copies

`ConflictPath` glues the stem of a name, a marker, a device, a clock and the extension together with
dots.  Stems and extensions have dots of their own, an extension may consist of digits, and a
conflict copy can itself be in conflict.

The name is read from the right.  Its last field is the extension or the clock, and the clock is too
short to be taken for a device, so there is one way to read it.

## What is here

* `cut_last` — text up to the last separator and after it.
* `conflictName_inj` — **a conflict name has one reading**.
* `validateRelativePath_eq_ok_iff` — the check of the database, component by component.
* `conflictPath_unambiguous` — what `ConflictPath` returns.

Why unambiguity matters: if two versions that lose had the same conflict path, the second would have
to take the place of the first.  The name has to tell the path, the device and the clock, without
any of them being quoted.
-/

set_option autoImplicit false

namespace VeritasSync

/-! ## Texts and separators -/

section Separators

variable {α : Type} [DecidableEq α] {x : α} {s s' t t' : List α}

/-- There is one place of the last separator. -/
theorem cut_last (h : s ++ x :: t = s' ++ x :: t') (ht : x ∉ t) (ht' : x ∉ t') :
    s = s' ∧ t = t' := by
  have htail : ∀ s t : List α, x ∉ t → (s ++ x :: t).rtakeWhile (fun c => c ≠ x) = t := by
    intro s t ht
    rw [List.rtakeWhile, List.reverse_append, List.reverse_cons, List.append_assoc,
      List.takeWhile_append_of_pos fun c hc => by
        simpa using fun heq : c = x => ht (heq ▸ List.mem_reverse.mp hc)]
    rw [List.singleton_append, List.takeWhile_cons_of_neg (by simp), List.append_nil,
      List.reverse_reverse]
  have heq : t = t' := by rw [← htail s t ht, h, htail s' t' ht']
  subst heq
  exact ⟨List.append_cancel_right h, rfl⟩

end Separators

/-! ## Stem and extension -/

theorem extension_suffix (name : Bytes) : extension name <:+ name := by
  rw [extension]
  split
  · exact List.nil_suffix
  · rename_i hdot
    rw [not_or, not_or, not_le] at hdot
    have hsplit : name.rdropWhile (fun c => c ≠ dot) ++ name.rtakeWhile (fun c => c ≠ dot) = name :=
      List.rdropWhile_append_rtakeWhile
    have hne : name.rdropWhile (fun c => c ≠ dot) ≠ [] := by
      intro hnil
      rw [hnil, List.nil_append] at hsplit
      rw [hsplit] at hdot
      omega
    have hlast := List.rdropWhile_last_not _ _ hne
    rw [decide_eq_true_eq, not_not] at hlast
    refine ⟨(name.rdropWhile fun c => c ≠ dot).dropLast, ?_⟩
    conv_rhs => rw [← hsplit, ← List.dropLast_append_getLast hne, hlast]
    rw [List.append_assoc]
    rfl

theorem stem_append_extension (name : Bytes) : stem name ++ extension name = name := by
  obtain ⟨before, hbefore⟩ := extension_suffix name
  have hlength : before.length + (extension name).length = name.length := by
    rw [← List.length_append, hbefore]
  have htake : name.take before.length = before := by
    conv_lhs => rw [← hbefore]
    exact List.take_left
  rw [stem, ← hlength, Nat.add_sub_cancel, htake, hbefore]

/-- An extension is empty, or a dot and a text without one. -/
theorem extension_cases (name : Bytes) :
    extension name = [] ∨ ∃ tail, dot ∉ tail ∧ extension name = dot :: tail := by
  rw [extension]
  split
  · exact .inl rfl
  · refine .inr ⟨_, fun hmem => ?_, rfl⟩
    have hall : (name.rtakeWhile fun c => c ≠ dot).all fun c => c ≠ dot := by
      rw [List.rtakeWhile, List.all_reverse]
      exact List.all_takeWhile
    simpa using List.all_eq_true.mp hall dot hmem

/-! ## One reading

Reading from the right, the first field is either an extension or the clock.  A name without an
extension ends in the clock, and the field before that is the device; so the question is whether a
clock could be taken for a device.  It cannot, because a device has 32 characters and a 64-bit
number has at most twenty. -/

/-- An identifier the engine has derived: the text of a hash, cut to thirty-two digits. -/
def IsDerivedId (id : DeviceId) : Prop :=
  id.length = 32 ∧
    ∀ c ∈ id, ('0'.toUInt8 ≤ c ∧ c ≤ '9'.toUInt8) ∨ ('a'.toUInt8 ≤ c ∧ c ≤ 'f'.toUInt8)

instance (id : DeviceId) : Decidable (IsDerivedId id) := inferInstanceAs (Decidable (_ ∧ _))

variable {H : Type} {losing losing' : FileRecord H} {name name' : Bytes} {id : DeviceId}

/-- Bytes that stand for themselves in a conflict name. -/
theorem safeDeviceByte_of_hex {c : UInt8}
    (h : ('0'.toUInt8 ≤ c ∧ c ≤ '9'.toUInt8) ∨ ('a'.toUInt8 ≤ c ∧ c ≤ 'f'.toUInt8)) :
    safeDeviceByte c = true := by
  have hf : ('f'.toUInt8) ≤ 'z'.toUInt8 := by decide
  rcases h with ⟨hlow, hhigh⟩ | ⟨hlow, hhigh⟩
  · simp [safeDeviceByte, hlow, hhigh]
  · simp [safeDeviceByte, hlow, hhigh.trans hf]

theorem IsDerivedId.safeDeviceId_eq (h : IsDerivedId id) : safeDeviceId id = id := by
  have hne : id ≠ [] := by
    rintro rfl
    exact absurd h.1 (by decide)
  rw [safeDeviceId, if_neg hne]
  conv_rhs => rw [← List.map_id id]
  exact List.map_congr_left fun c hc => if_pos (safeDeviceByte_of_hex (h.2 c hc))

/-- Bytes with a meaning in paths and names. -/
def IsMark (c : UInt8) : Prop :=
  c = dot ∨ c = slash ∨ c = '\\'.toUInt8 ∨ c = ':'.toUInt8

theorem not_isMark_of_hex {c : UInt8}
    (h : ('0'.toUInt8 ≤ c ∧ c ≤ '9'.toUInt8) ∨ ('a'.toUInt8 ≤ c ∧ c ≤ 'f'.toUInt8)) :
    ¬ IsMark c := by
  rintro (rfl | rfl | rfl | rfl) <;> revert h <;> decide

theorem not_isMark_of_mem_decimal {n : Nat} {c : UInt8} (h : c ∈ decimal n) : ¬ IsMark c :=
  not_isMark_of_hex (.inl (Tracker.digit_of_mem_decimal h))

theorem decimal_injective {n n' : Nat} (h : decimal n = decimal n') : n = n' := by
  have hparse := Tracker.parseNat_decimal n
  rw [h, Tracker.parseNat_decimal] at hparse
  exact (Option.some.inj hparse).symm

theorem length_decimal_le {n : Nat} (h : n < 2 ^ 64) : (decimal n).length ≤ 20 := by
  rw [decimal, List.length_map]
  exact (Nat.length_toDigits_le_iff (by decide) (by decide)).mpr (h.trans (by decide))

/-- The part of a conflict name before the clock determines stem and device. -/
theorem marked_inj {id' : DeviceId} (hid : IsDerivedId id) (hid' : IsDerivedId id')
    (h : stem name ++ conflictMarker ++ id = stem name' ++ conflictMarker ++ id') :
    stem name = stem name' ∧ id = id' := by
  have hmarker : ∀ s t : Bytes, s ++ conflictMarker ++ t = (s ++ ascii ".conflict") ++ dot :: t :=
    fun s t => by rw [List.append_assoc, List.append_assoc]; rfl
  rw [hmarker, hmarker] at h
  obtain ⟨hstem, rfl⟩ := cut_last h (fun hdot => not_isMark_of_hex (hid.2 _ hdot) (.inl rfl))
    (fun hdot => not_isMark_of_hex (hid'.2 _ hdot) (.inl rfl))
  exact ⟨List.append_cancel_right hstem, rfl⟩

/-- A clock is too short for a device. -/
theorem marked_ne (hid : IsDerivedId id) {before : Bytes} {clock : Nat} (hclock : clock < 2 ^ 64) :
    stem name ++ conflictMarker ++ id ≠ before ++ dot :: decimal clock := by
  intro h
  have hmarker : stem name ++ conflictMarker ++ id =
      (stem name ++ ascii ".conflict") ++ dot :: id := by
    rw [List.append_assoc, List.append_assoc]
    rfl
  rw [hmarker] at h
  obtain ⟨-, hsame⟩ := cut_last h (fun hdot => not_isMark_of_hex (hid.2 _ hdot) (.inl rfl))
    (fun hdot => not_isMark_of_mem_decimal hdot (.inl rfl))
  have hlength := length_decimal_le hclock
  rw [← hsame, hid.1] at hlength
  exact absurd hlength (by decide)

/-- **A conflict name has one reading.**  The name is read from its end: an extension if there is
one, a number, a device, the marker. -/
theorem conflictName_inj (hid : IsDerivedId losing.originDeviceId)
    (hid' : IsDerivedId losing'.originDeviceId) (hclock : losing.logicalClock < 2 ^ 64)
    (hclock' : losing'.logicalClock < 2 ^ 64)
    (h : conflictName name losing = conflictName name' losing') :
    name = name' ∧ losing.originDeviceId = losing'.originDeviceId ∧
      losing.logicalClock = losing'.logicalClock := by
  have hdigits : ∀ n, dot ∉ decimal n := fun n hdot => not_isMark_of_mem_decimal hdot (.inl rfl)
  rw [conflictName, conflictName, hid.safeDeviceId_eq, hid'.safeDeviceId_eq] at h
  -- with or without an extension on either side
  rcases extension_cases name with hext | ⟨tail, htail, hext⟩
  · rcases extension_cases name' with hext' | ⟨tail', htail', hext'⟩
    · rw [hext, hext', List.append_nil, List.append_nil, List.append_assoc, List.append_assoc
        (stem name' ++ _ ++ _)] at h
      obtain ⟨hmarked, hclocks⟩ := cut_last h (hdigits _) (hdigits _)
      obtain ⟨hstem, hids⟩ := marked_inj hid hid' hmarked
      refine ⟨?_, hids, decimal_injective hclocks⟩
      rw [← stem_append_extension name, ← stem_append_extension name', hstem, hext, hext']
    · rw [hext, hext', List.append_nil, List.append_assoc] at h
      obtain ⟨hmarked, -⟩ := cut_last h (hdigits _) htail'
      rw [List.append_assoc (stem name' ++ _ ++ _)] at hmarked
      exact absurd hmarked (marked_ne hid hclock')
  · rcases extension_cases name' with hext' | ⟨tail', htail', hext'⟩
    · rw [hext, hext', List.append_nil, List.append_assoc (stem name' ++ _ ++ _)] at h
      obtain ⟨hmarked, -⟩ := cut_last h htail (hdigits _)
      rw [List.append_assoc] at hmarked
      exact absurd hmarked.symm (marked_ne hid' hclock)
    · rw [hext, hext'] at h
      obtain ⟨hclocked, rfl⟩ := cut_last h htail htail'
      rw [List.append_assoc, List.append_assoc (stem name' ++ _ ++ _)] at hclocked
      obtain ⟨hmarked, hclocks⟩ := cut_last hclocked (hdigits _) (hdigits _)
      obtain ⟨hstem, hids⟩ := marked_inj hid hid' hmarked
      refine ⟨?_, hids, decimal_injective hclocks⟩
      rw [← stem_append_extension name, ← stem_append_extension name', hstem, hext, hext']

/-! ## Paths -/

theorem components_of_notMem {p : Bytes} (h : slash ∉ p) : components p = [p] :=
  List.splitOn_eq_singleton h

theorem components_append_slash (parent : Path) {p : Bytes} (h : slash ∉ p) :
    components (parent ++ slash :: p) = components parent ++ [p] := by
  rw [components, List.splitOn_append_cons_self, List.splitOn_eq_singleton h]
  rfl

theorem components_joinPath (parent : Path) (h : slash ∉ name) :
    components (joinPath parent name) =
      (if parent = [] then [] else components parent) ++ [name] := by
  rw [joinPath]
  split
  · exact components_of_notMem h
  · exact components_append_slash parent h

theorem mem_joinPath {parent : Path} {c : UInt8} (hc : c ≠ slash) :
    c ∈ joinPath parent name ↔ c ∈ parent ∨ c ∈ name := by
  rw [joinPath]
  split
  · rename_i hnil
    simp [hnil]
  · simp [hc]

theorem fileName_joinPath (parent : Path) (h : slash ∉ name) :
    fileName (joinPath parent name) = name := by
  rw [fileName, components_joinPath parent h, List.getLastD_concat]

theorem parentPath_joinPath (parent : Path) (h : slash ∉ name) :
    parentPath (joinPath parent name) = parent := by
  rw [parentPath, components_joinPath parent h, List.dropLast_concat]
  split
  · rename_i hnil
    rw [hnil]
    rfl
  · exact List.intercalate_splitOn slash

/-- A component that can be a name. -/
def IsName (c : Bytes) : Prop := c ≠ [] ∧ c ≠ [dot] ∧ c ≠ [dot, dot]

theorem validateRelativePath_eq_ok_iff {p : Path} :
    Database.validateRelativePath p = .ok () ↔
      (∀ c ∈ components p, IsName c) ∧ '\\'.toUInt8 ∉ p ∧ ':'.toUInt8 ∉ p := by
  have hany : ((components p).any fun c => c = [] ∨ c = [dot] ∨ c = [dot, dot]) = true ↔
      ¬ ∀ c ∈ components p, IsName c := by
    rw [List.any_eq_true]
    push Not
    refine exists_congr fun c => and_congr_right fun _ => ?_
    rw [decide_eq_true_eq, IsName]
    tauto
  rw [Database.validateRelativePath]
  split
  · rename_i hbad
    refine ⟨by rintro ⟨⟩, fun h => ?_⟩
    rcases hbad with rfl | hhead | hback | hcolon
    · exact absurd rfl (h.1 [] List.mem_cons_self).1
    · obtain ⟨rest, rfl⟩ := List.head?_eq_some_iff.mp hhead
      have hfirst : [] ∈ components (slash :: rest) := by
        rw [components_cons, if_pos rfl]
        exact List.mem_cons_self
      exact absurd rfl (h.1 [] hfirst).1
    · exact absurd hback h.2.1
    · exact absurd hcolon h.2.2
  · rename_i hgood
    split
    · rename_i hbad
      exact ⟨by rintro ⟨⟩, fun h => absurd h.1 (hany.mp hbad)⟩
    · rename_i hnames
      rw [hany, not_not] at hnames
      exact ⟨fun _ => ⟨hnames, by tauto, by tauto⟩, fun _ => rfl⟩

theorem slash_notMem_component {p : Path} {c : Bytes} (h : c ∈ components p) : slash ∉ c := by
  induction p generalizing c with
  | nil =>
    rw [List.mem_singleton.mp h]
    exact List.not_mem_nil
  | cons x p ih =>
    obtain ⟨k, rest, hcomponents⟩ := components_eq_cons p
    rw [components_cons] at h
    split at h
    · rcases List.mem_cons.mp h with rfl | h
      · exact List.not_mem_nil
      · exact ih h
    · rename_i hx
      rw [hcomponents, List.modifyHead_cons] at h
      rw [hcomponents] at ih
      rcases List.mem_cons.mp h with rfl | h
      · rw [List.mem_cons, not_or]
        exact ⟨Ne.symm hx, ih List.mem_cons_self⟩
      · exact ih (List.mem_cons_of_mem _ h)

/-- Parent and name make up the path. -/
theorem joinPath_fileName {p : Path} (h : Database.validateRelativePath p = .ok ()) :
    joinPath (parentPath p) (fileName p) = p := by
  have hnames := (validateRelativePath_eq_ok_iff.mp h).1
  have hne : components p ≠ [] := List.splitOn_ne_nil _ _
  have hsplit : (components p).dropLast ++ [fileName p] = components p := by
    rw [fileName, List.getLastD_eq_getLast?, List.getLast?_eq_some_getLast hne, Option.getD_some,
      List.dropLast_append_getLast]
  have hname : slash ∉ fileName p := slash_notMem_component (fileName_mem_components p)
  have hinj : ∀ q : Path, components q = components p → q = p := fun q hq => by
    have hjoin : ∀ r : Path, [slash].intercalate (components r) = r := fun r =>
      List.intercalate_splitOn slash
    rw [← hjoin q, ← hjoin p, hq]
  by_cases hparent : (components p).dropLast = []
  · rw [hparent, List.nil_append] at hsplit
    have hnil : parentPath p = [] := by
      rw [parentPath, hparent]
      rfl
    refine hinj _ ?_
    rw [components_joinPath _ hname, if_pos hnil, List.nil_append, hsplit]
  · have hcomponents : components (parentPath p) = (components p).dropLast :=
      List.splitOn_intercalate slash
        (fun c hc => slash_notMem_component (List.mem_of_mem_dropLast hc)) hparent
    have hfirst : parentPath p ≠ [] := by
      intro hnil
      rw [hnil] at hcomponents
      refine (hnames [] (List.mem_of_mem_dropLast (hcomponents ▸ ?_))).1 rfl
      exact List.mem_cons_self
    refine hinj _ ?_
    rw [components_joinPath _ hname, if_neg hfirst, hcomponents, hsplit]

/-! ## The path of a conflict copy -/

/-- The bytes of a conflict name that have a meaning in paths come from the name. -/
theorem mem_conflictName (hid : IsDerivedId losing.originDeviceId) {c : UInt8}
    (hmark : c = slash ∨ c = '\\'.toUInt8 ∨ c = ':'.toUInt8)
    (h : c ∈ conflictName name losing) : c ∈ name := by
  have hmarker : c ∉ conflictMarker := by rcases hmark with rfl | rfl | rfl <;> decide
  have hdot : c ≠ dot := by rcases hmark with rfl | rfl | rfl <;> decide
  rw [conflictName, hid.safeDeviceId_eq] at h
  simp only [List.mem_append, List.mem_singleton] at h
  rcases h with ((((h | h) | h) | h) | h) | h
  · exact stem_append_extension name ▸ List.mem_append_left _ h
  · exact absurd h hmarker
  · exact absurd (.inr hmark) (not_isMark_of_hex (hid.2 c h))
  · exact absurd h hdot
  · exact absurd (.inr hmark) (not_isMark_of_mem_decimal h)
  · exact stem_append_extension name ▸ List.mem_append_right _ h

theorem length_conflictName (name : Bytes) (losing : FileRecord H) :
    name.length + 10 < (conflictName name losing).length := by
  have hlength := congrArg List.length (stem_append_extension name)
  have hmarker : conflictMarker.length = 10 := rfl
  rw [List.length_append] at hlength
  simp only [conflictName, List.length_append, List.length_singleton, hmarker]
  omega

theorem contains_conflictName (name : Bytes) (losing : FileRecord H) :
    contains (conflictName name losing) conflictMarker = true := by
  refine decide_eq_true ⟨stem name, safeDeviceId losing.originDeviceId ++ [dot] ++
    decimal losing.logicalClock ++ extension name, ?_⟩
  rw [conflictName]
  simp only [List.append_assoc]

/-- The database takes the path of a conflict copy. -/
theorem validateRelativePath_joinPath {p : Path}
    (hp : Database.validateRelativePath p = .ok ()) (hid : IsDerivedId losing.originDeviceId) :
    Database.validateRelativePath
      (joinPath (parentPath p) (conflictName (fileName p) losing)) = .ok () := by
  obtain ⟨hnames, hback, hcolon⟩ := validateRelativePath_eq_ok_iff.mp hp
  have hslash : slash ∉ fileName p := slash_notMem_component (fileName_mem_components p)
  have hslash' : slash ∉ conflictName (fileName p) losing :=
    fun h => hslash (mem_conflictName hid (.inl rfl) h)
  have hbytes : ∀ c, c = '\\'.toUInt8 ∨ c = ':'.toUInt8 → c ∉ p →
      c ∉ joinPath (parentPath p) (conflictName (fileName p) losing) := by
    intro c hc hnot hmem
    have hne : c ≠ slash := by rcases hc with rfl | rfl <;> decide
    rw [mem_joinPath hne] at hmem
    rw [← joinPath_fileName hp, mem_joinPath hne] at hnot
    exact hnot (hmem.imp_right (mem_conflictName hid (.inr hc)))
  refine validateRelativePath_eq_ok_iff.mpr
    ⟨fun c hc => ?_, hbytes _ (.inl rfl) hback, hbytes _ (.inr rfl) hcolon⟩
  rw [← joinPath_fileName hp, components_joinPath _ hslash] at hnames
  rw [components_joinPath _ hslash'] at hc
  rcases List.mem_append.mp hc with hc | hc
  · exact hnames c (List.mem_append_left _ hc)
  · have hlength := length_conflictName (fileName p) losing
    rw [← List.mem_singleton.mp hc] at hlength
    refine ⟨?_, ?_, ?_⟩
    · rintro rfl
      exact absurd hlength (by simp)
    · rintro rfl
      exact absurd hlength (by simp)
    · rintro rfl
      exact absurd hlength (by simp)

/-- **Conflict paths are unambiguous**: `ConflictPath` returns different paths for different paths,
devices or clocks.  What it returns lies in the directory of the original, is accepted by the
database, is not the original and is named like a conflict copy, so that a scan of the node leaves
it out. -/
theorem conflictPath_unambiguous [ContentHash H] {p p' : Path} (losing losing' : FileRecord H)
    (hp : Database.validateRelativePath p = .ok ())
    (hp' : Database.validateRelativePath p' = .ok ())
    (hid : IsDerivedId losing.originDeviceId) (hid' : IsDerivedId losing'.originDeviceId)
    (hclock : losing.logicalClock < 2 ^ 64) (hclock' : losing'.logicalClock < 2 ^ 64) :
    ∃ result, conflictPath p losing = .ok result ∧
      (conflictPath p' losing' = .ok result → p' = p ∧
        losing'.originDeviceId = losing.originDeviceId ∧
        losing'.logicalClock = losing.logicalClock) ∧
      parentPath result = parentPath p ∧ Database.validateRelativePath result = .ok () ∧
      isConflictPath result = true ∧ result ≠ p ∧
      ∀ (n : Node H) (snapshot : List (SnapshotEntry H)), n.localSnapshot = .ok snapshot →
        ∀ entry ∈ snapshot, entry.relativePath ≠ result := by
  have hnonempty : ∀ {id : DeviceId}, IsDerivedId id → id ≠ [] := by
    rintro _ h rfl
    exact absurd h.1 (by decide)
  have hslash : ∀ {q : Path} {r : FileRecord H}, IsDerivedId r.originDeviceId →
      slash ∉ conflictName (fileName q) r := fun {q _} h hmem =>
    slash_notMem_component (fileName_mem_components q) (mem_conflictName h (.inl rfl) hmem)
  have hresult := conflictPath_eq_ok losing hp (hnonempty hid)
  have hname := fileName_joinPath (parentPath p) (hslash (q := p) hid)
  have hparent := parentPath_joinPath (parentPath p) (hslash (q := p) hid)
  have hconflict : isConflictPath
      (joinPath (parentPath p) (conflictName (fileName p) losing)) = true :=
    List.any_eq_true.mpr ⟨_, hname ▸ fileName_mem_components _, contains_conflictName _ _⟩
  refine ⟨_, hresult, fun hsame => ?_, hparent, validateRelativePath_joinPath hp hid, hconflict,
    fun heq => ?_, fun n snapshot hsnapshot entry hentry heq => ?_⟩
  · rw [conflictPath_eq_ok losing' hp' (hnonempty hid')] at hsame
    have hpaths := Except.ok.inj hsame
    have hparents := congrArg parentPath hpaths
    have hnames := congrArg fileName hpaths
    rw [parentPath_joinPath _ (hslash hid'), hparent] at hparents
    rw [fileName_joinPath _ (hslash hid'), hname] at hnames
    -- the name is read from its end: clock, origin and the name of the file
    obtain ⟨hfile, hids, hclocks⟩ := conflictName_inj hid' hid hclock' hclock hnames
    refine ⟨?_, hids, hclocks⟩
    rw [← joinPath_fileName hp', ← joinPath_fileName hp, hparents, hfile]
  · have hlength := length_conflictName (fileName p) losing
    rw [← hname, heq] at hlength
    omega
  · obtain ⟨rules, -, -, hmem⟩ := Node.localSnapshot_eq_ok hsnapshot
    obtain ⟨q, node, -, -, hnot, rfl⟩ := (hmem entry).mp hentry
    rw [Folder.snapshotEntry_relativePath] at heq
    rw [heq, hconflict] at hnot
    cases hnot

/-- The losing version of a file, at some clock. -/
def losingAt (clock : Nat) : FileRecord Bytes :=
  ⟨[1], ascii "d/a.1", .file, 1, 0, some [1], [1], ascii "0123456789abcdef0123456789abcdef", clock,
    none⟩

theorem conflictPath_unambiguous_losingAt :
    ∃ result, conflictPath (ascii "d/a.1") (losingAt 7) = .ok result ∧
      isConflictPath result = true ∧
      (conflictPath (ascii "d/a.1") (losingAt 8) = .ok result → (8 : Nat) = 7) := by
  obtain ⟨result, hresult, hinj, -, -, hconflict, -⟩ := conflictPath_unambiguous (losingAt 7)
    (losingAt 8) (show Database.validateRelativePath (ascii "d/a.1") = .ok () by decide +kernel)
    (show Database.validateRelativePath (ascii "d/a.1") = .ok () by decide +kernel)
    (by decide +kernel) (by decide +kernel) (by decide) (by decide)
  exact ⟨result, hresult, hconflict, fun h => (hinj h).2.2⟩

end VeritasSync
