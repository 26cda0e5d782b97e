import Mathlib

/-!
# Byte strings and relative paths

Every `std::string` and byte vector of the engine is a `Bytes`: a list of bytes, compared the way
`std::string` compares, byte by byte as unsigned numbers.  A `Path` is the text of a task-relative
path with `/` between its components, as `generic_u8string` prints it and as the `relative_path`
columns store it.

The functions of `std::filesystem::path` the engine applies to such a text are here: the
components, the file name, the parent, and the split of a name into stem and extension.

Texts stay bytes throughout the development.  A text that the source compares, splits or stores is
compared, split and stored byte by byte, and none of the characters it looks for (separators, dots,
signs of a rule) is a part of a longer character in UTF-8, so nothing would be gained by a type of
characters here.  The few places where the encoding does matter, the tracker's texts and the three
languages of the pipe, decode where they have to.

An exception is an `Error`: its standard class and its text.  The class is kept because callers
catch by it, and the text because some of them are shown to the user or stored in a row.
-/

set_option autoImplicit false

/-- Bytes are ordered as unsigned numbers. -/
instance linearOrderByte : LinearOrder UInt8 where
  le_refl := UInt8.le_refl
  le_trans _ _ _ := UInt8.le_trans
  lt_iff_le_not_ge a b := by
    rw [UInt8.lt_iff_le_and_ne]
    exact ⟨fun h => ⟨h.1, fun h' => h.2 (UInt8.le_antisymm h.1 h')⟩,
      fun h => ⟨h.1, fun heq => h.2 (heq ▸ UInt8.le_refl _)⟩⟩
  le_antisymm _ _ := UInt8.le_antisymm
  le_total := UInt8.le_total
  toDecidableLE := inferInstance
  toDecidableEq := inferInstance
  toDecidableLT := inferInstance

instance lawfulBEqByte : LawfulBEq UInt8 := inferInstance

instance lawfulBEqBytes : LawfulBEq (List UInt8) := inferInstance

namespace VeritasSync

/-- A byte string. -/
abbrev Bytes := List UInt8

/-- The text of a task-relative path. -/
abbrev Path := Bytes

/-- The exceptions the engine throws, by their standard class. -/
inductive Error where
  | invalidArgument (message : String)
  | runtimeError (message : String)
  | logicError (message : String)
  | overflowError (message : String)
  | lengthError (message : String)
  deriving DecidableEq, Repr

/-- A check that passed went through both halves. -/
theorem ok_of_bind {α β : Type} {x : Except Error α} {k : α → Except Error β} {b : β}
    (h : (x >>= k) = .ok b) : ∃ a, x = .ok a ∧ k a = .ok b := by
  cases x with
  | error e => cases h
  | ok a => exact ⟨a, rfl, h⟩

theorem ok_of_map {α β : Type} {x : Except Error α} {f : α → β} {b : β} (h : x.map f = .ok b) :
    ∃ a, x = .ok a ∧ f a = b := by
  cases x with
  | error e => cases h
  | ok a => exact ⟨a, rfl, Except.ok.inj h⟩

/-- A check passes when its condition is false. -/
theorem unless_eq_ok {α β : Type} {c : Prop} [Decidable c] {e : Error} {f : α → Except Error β}
    {next : Except Error β} {b : β} :
    (if c then (throw e : Except Error α) >>= f else next) = .ok b ↔ ¬c ∧ next = .ok b := by
  split
  · rename_i hc
    refine iff_of_false ?_ fun h => h.1 hc
    rintro ⟨⟩
  · rename_i hc
    rw [and_iff_right hc]

/-- A loop of checks that passed made each of them. -/
theorem forM_eq_ok {α : Type} {f : α → Except Error Unit} {l : List α} (h : l.forM f = .ok ()) :
    ∀ a ∈ l, f a = .ok () := by
  induction l with
  | nil => nofun
  | cons x l ih =>
    obtain ⟨_, hx, hl⟩ := ok_of_bind h
    intro a ha
    rcases List.mem_cons.mp ha with rfl | ha
    · exact hx
    · exact ih hl a ha

/-- The exception is a `std::invalid_argument`. -/
def Error.IsInvalidArgument : Error → Prop
  | .invalidArgument _ => True
  | _ => False

/-- A check that throws nothing but `std::invalid_argument`. -/
def Rejects {α : Type} (x : Except Error α) : Prop := ∀ e, x = .error e → e.IsInvalidArgument

theorem Rejects.ok {α : Type} (a : α) : Rejects (.ok a) := nofun

theorem Rejects.error {α : Type} (message : String) :
    Rejects (.error (.invalidArgument message) : Except Error α) := by
  rintro _ ⟨⟩
  trivial

theorem Rejects.bind {α β : Type} {x : Except Error α} {f : α → Except Error β}
    (hx : Rejects x) (hf : ∀ a, x = .ok a → Rejects (f a)) : Rejects (x >>= f) := by
  cases x with
  | error e =>
    rintro _ ⟨⟩
    exact hx e rfl
  | ok a => exact hf a rfl

theorem Rejects.ite {α : Type} {c : Prop} [Decidable c] {x y : Except Error α} (hx : Rejects x)
    (hy : Rejects y) : Rejects (if c then x else y) := by
  split
  · exact hx
  · exact hy

/-- The bytes of an ASCII literal. -/
def ascii (s : String) : Bytes := s.toList.map fun c => c.toNat.toUInt8

/-- `std::to_string` of an unsigned number. -/
def decimal (n : Nat) : Bytes := (Nat.toDigits 10 n).map fun c => c.toNat.toUInt8

/-- The separator between path components. -/
def slash : UInt8 := '/'.toUInt8

/-- The byte that starts an extension. -/
def dot : UInt8 := '.'.toUInt8

/-- The text of `part` occurs somewhere in `text`. -/
def contains (text part : Bytes) : Bool := decide (part <:+: text)

/-! ## Components

A path is taken apart at its separators and nothing is normalised on the way: `a//b` has an empty
component in the middle, as a `std::string` with these bytes has.  Whether such a path is admitted
is decided elsewhere (`ResolveTaskPath` and `IgnoreRules::Normalize` each have a view of their own
on such texts), and a function that only splits must not decide it first.

That one path lies below another is a statement about prefixes: the name of the directory with a
separator after it starts the path.  This is the form in which the source asks, and it is the form
in which a parent can be looked up in a map that is sorted by bytes. -/

/-- The components of a path. -/
def components (p : Path) : List Bytes := p.splitOn slash

/-- `path::filename`: what follows the last separator. -/
def fileName (p : Path) : Bytes := (components p).getLastD []

/-- `path::parent_path`: what precedes the last separator. -/
def parentPath (p : Path) : Path := [slash].intercalate (components p).dropLast

/-- `operator/` of two relative paths. -/
def joinPath (parent : Path) (name : Bytes) : Path :=
  if parent = [] then name else parent ++ slash :: name

/-- `path::extension` of a file name: from the last dot on, unless that dot is the first
character, or the name is `.` or `..`. -/
def extension (name : Bytes) : Bytes :=
  let tail := name.rtakeWhile fun c => c ≠ dot
  if name = [dot] ∨ name = [dot, dot] ∨ name.length ≤ tail.length + 1 then [] else dot :: tail

/-- `path::stem` of a file name: the name without its extension. -/
def stem (name : Bytes) : Bytes := name.take (name.length - (extension name).length)

theorem fileName_mem_components (p : Path) : fileName p ∈ components p := by
  have hne : components p ≠ [] := List.splitOn_ne_nil _ _
  rw [fileName, List.getLastD_eq_getLast?, List.getLast?_eq_some_getLast hne, Option.getD_some]
  exact List.getLast_mem hne

/-- The name of the directory `d` as a prefix of the paths below it. -/
def below (d : Path) : Bytes := d ++ [slash]

/-- `q` lies strictly below the directory `d`.  The separator is part of the prefix, so `ab` is not
below `a`. -/
def IsBelow (d q : Path) : Prop := below d <+: q

instance (d q : Path) : Decidable (IsBelow d q) := inferInstanceAs (Decidable (below d <+: q))

/-- The directories above a path, outermost first: the prefixes that end at a separator. -/
def parents (p : Path) : List Path :=
  (List.range p.length).filterMap fun i => if p[i]? = some slash then some (p.take i) else none

theorem mem_parents {d p : Path} : d ∈ parents p ↔ IsBelow d p := by
  simp only [parents, List.mem_filterMap, List.mem_range, Option.ite_none_right_eq_some,
    Option.some.injEq, IsBelow, below]
  constructor
  · rintro ⟨i, hi, hs, rfl⟩
    refine ⟨p.drop (i + 1), ?_⟩
    have hget : p[i] = slash := by simpa [List.getElem?_eq_getElem hi] using hs
    rw [List.append_assoc, List.singleton_append, ← hget, ← List.drop_eq_getElem_cons hi,
      List.take_append_drop]
  · rintro ⟨t, rfl⟩
    exact ⟨d.length, by simp, by simp, by simp⟩

theorem components_cons (c : UInt8) (p : Path) :
    components (c :: p) =
      if c = slash then [] :: components p else (components p).modifyHead (c :: ·) := by
  rw [components, List.splitOn_cons_eq_if_modifyHead]
  simp only [beq_iff_eq, components]

theorem components_eq_cons (p : Path) : ∃ c rest, components p = c :: rest :=
  List.exists_cons_of_ne_nil (List.splitOn_ne_nil _ _)

/-- A path whose first component is empty starts with a separator. -/
theorem eq_slash_of_components {x : UInt8} {p : Path} {rest : List Bytes}
    (h : components (x :: p) = [] :: rest) : x = slash := by
  rw [components_cons] at h
  split at h
  · assumption
  · obtain ⟨k', rest', hcomponents⟩ := components_eq_cons p
    rw [hcomponents, List.modifyHead_cons] at h
    cases h

/-! ## Conflict names -/

/-- The marker in the name of a preserved conflict copy. -/
def conflictMarker : Bytes := ascii ".conflict."

/-- `IsConflictPath`: some component carries the conflict marker. -/
def isConflictPath (p : Path) : Bool := (components p).any fun c => contains c conflictMarker

end VeritasSync
