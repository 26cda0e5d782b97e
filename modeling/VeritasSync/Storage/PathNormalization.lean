import VeritasSync.Storage.RuleText

/-!
# The normal form of an ignored path

`IgnoreRules::Normalize` is what every path goes through before it is matched.  It reads backslashes
as separators, refuses a leading separator, then drops leading `./`s, and then looks for empty and
dotted components.

Between the second and the third check a path can become one that starts with a separator:
`.//a` is accepted, as `/a`, which `Normalize` itself refuses.

The rules are written against paths in normal form, and a path that is not in it may escape them: a
pattern that has to match from the start of the path does not match when an empty component stands
in front.

## What is here

* `IgnoreRules.NormalForm` — what the matcher relies on.
* `IgnoreRules.normalize_eq_ok_iff` — the paths that are accepted, in terms of the result.
* `IgnoreRules.SlipsThrough` — the inputs on which a separator comes to the front.
* `normalize_normal_form` — on these, and only on these, `Normalize` misses its purpose.
-/

set_option autoImplicit false

namespace VeritasSync

/-! ## Empty components -/

/-- The first component is empty if a path is, or starts with a separator. -/
theorem nil_mem_components_iff_tail {p : Path} : [] ∈ components p ↔
    p = [] ∨ p.head? = some slash ∨ [] ∈ (components p).tail := by
  cases p with
  | nil => simp [components, List.splitOn_nil]
  | cons c p =>
    rw [components_cons]
    obtain ⟨k, rest, hcomponents⟩ := components_eq_cons p
    split <;> simp_all [List.modifyHead_cons]

/-- Where an empty component that is not the first stands. -/
theorem nil_mem_tail_components {p : Path} : [] ∈ (components p).tail ↔
    p.getLast? = some slash ∨ [slash, slash] <:+: p := by
  induction p with
  | nil => simp [components, List.splitOn_nil]
  | cons c p ih =>
    rw [components_cons]
    split
    · rename_i hc
      rw [List.tail_cons, nil_mem_components_iff_tail, ih, hc, List.infix_cons_iff,
        List.cons_prefix_cons]
      cases p with
      | nil => simp
      | cons d p =>
        simp only [List.cons_prefix_cons, List.getLast?_cons_cons, List.head?_cons]
        simp [eq_comm]
        tauto
    · rename_i hc
      obtain ⟨k, rest, hcomponents⟩ := components_eq_cons p
      rw [hcomponents, List.tail_cons] at ih
      rw [hcomponents, List.modifyHead_cons, List.tail_cons, ih, List.infix_cons_iff,
        List.cons_prefix_cons]
      cases p with
      | nil => simp [Ne.symm hc, hc]
      | cons d p => simp [Ne.symm hc]

/-- **Where an empty component stands.**  At either end, or between two separators. -/
theorem nil_mem_components {p : Path} : [] ∈ components p ↔
    p = [] ∨ p.head? = some slash ∨ p.getLast? = some slash ∨ [slash, slash] <:+: p := by
  rw [nil_mem_components_iff_tail, nil_mem_tail_components]

namespace IgnoreRules

/-! ## Leading `./` -/

/-- The text `./`, a number of times. -/
def dotSlashes : Nat → Bytes
  | 0 => []
  | n + 1 => dot :: slash :: dotSlashes n

/-- A path with backslashes read as separators. -/
def slashForm (value : Bytes) : Bytes := value.map fun c => if c = '\\'.toUInt8 then slash else c

theorem startsWith_dotSlash {path : Bytes} :
    ascii "./" <+: path ↔ ∃ rest, path = dot :: slash :: rest := by
  have hascii : ascii "./" = [dot, slash] := by decide
  rw [hascii]
  exact exists_congr fun rest => eq_comm

theorem stripDotSlash_dotSlashes {path : Bytes} (h : ¬ ascii "./" <+: path) :
    ∀ i fuel, (dotSlashes i).length ≤ 2 * fuel → stripDotSlash fuel (dotSlashes i ++ path) = path
  | 0, 0, _ => rfl
  | 0, fuel + 1, _ => by
    rw [dotSlashes, List.nil_append, stripDotSlash, if_neg h]
  | i + 1, 0, hfuel => by
    simp [dotSlashes] at hfuel
  | i + 1, fuel + 1, hfuel => by
    have hlength : (dotSlashes (i + 1)).length = (dotSlashes i).length + 2 := rfl
    rw [dotSlashes, List.cons_append, List.cons_append, stripDotSlash,
      if_pos (startsWith_dotSlash.mpr ⟨_, rfl⟩)]
    exact stripDotSlash_dotSlashes h i fuel (by omega)

/-- A path is a number of `./`s and a path without one in front. -/
theorem exists_dotSlashes (path : Bytes) :
    ∃ i rest, path = dotSlashes i ++ rest ∧ ¬ ascii "./" <+: rest := by
  induction hn : path.length using Nat.strong_induction_on generalizing path with
  | _ n ih =>
    by_cases h : ascii "./" <+: path
    · obtain ⟨tail, rfl⟩ := startsWith_dotSlash.mp h
      obtain ⟨i, rest, rfl, hrest⟩ := ih tail.length (by rw [← hn]; simp) tail rfl
      exact ⟨i + 1, rest, rfl, hrest⟩
    · exact ⟨0, path, rfl, h⟩

/-- What is left of a path when its `./`s are gone. -/
theorem stripDotSlash_eq {path : Bytes} (h : ¬ ascii "./" <+: path) (i : Nat) :
    stripDotSlash (dotSlashes i ++ path).length (dotSlashes i ++ path) = path := by
  refine stripDotSlash_dotSlashes h i _ ?_
  rw [List.length_append]
  omega

/-- A drive in front of a separator is not in the `./`s. -/
theorem drive_infix_dotSlashes (i : Nat) (path : Bytes) :
    ascii ":/" <:+: dotSlashes i ++ path ↔ ascii ":/" <:+: path := by
  induction i with
  | zero => exact Iff.rfl
  | succ i ih =>
    have hascii : ascii ":/" = [':'.toUInt8, slash] := by decide
    have hdot : ':'.toUInt8 ≠ dot := by decide
    have hslash : ':'.toUInt8 ≠ slash := by decide
    rw [dotSlashes, List.cons_append, List.cons_append, List.infix_cons_iff, List.infix_cons_iff,
      ih, hascii]
    simp only [List.cons_prefix_cons, hdot, hslash, false_and, false_or]

/-! ## Normal forms -/

/-- A path in normal form. -/
structure NormalForm (path : Path) : Prop where
  ne_nil : path ≠ []
  backslash : '\\'.toUInt8 ∉ path
  head : path.head? ≠ some slash
  last : path.getLast? ≠ some slash
  names : ∀ name ∈ components path, name ≠ [] ∧ name ≠ [dot] ∧ name ≠ [dot, dot]

/-- The checks that `Normalize` makes after the `./`s, and the one for a drive. -/
structure Clean (path : Path) : Prop where
  ne_nil : path ≠ []
  last : path.getLast? ≠ some slash
  slashes : ¬ [slash, slash] <:+: path
  names : ∀ name ∈ components path, name ≠ [dot] ∧ name ≠ [dot, dot]
  drive : ¬ ascii ":/" <:+: path

theorem backslash_notMem_slashForm (value : Bytes) : '\\'.toUInt8 ∉ slashForm value := by
  intro hmem
  obtain ⟨c, -, hc⟩ := List.mem_map.mp hmem
  split at hc
  · exact absurd hc (by decide)
  · contradiction

theorem slashForm_of_notMem {path : Bytes} (h : '\\'.toUInt8 ∉ path) : slashForm path = path := by
  refine (List.map_congr_left fun c hc => if_neg ?_).trans (List.map_id path)
  rintro rfl
  exact h hc

/-- A path that starts with `./` has a dotted component. -/
theorem Clean.not_dotSlash {path : Path} (h : Clean path) : ¬ ascii "./" <+: path := by
  rw [startsWith_dotSlash]
  rintro ⟨rest, rfl⟩
  have hfirst : [dot] ∈ components (dot :: slash :: rest) := by
    rw [components_cons, if_neg (by decide), components_cons, if_pos rfl]
    exact List.mem_cons_self
  exact (h.names _ hfirst).1 rfl

/-- A clean path without a separator in front is in normal form. -/
theorem Clean.normalForm {path : Path} (h : Clean path) (hback : '\\'.toUInt8 ∉ path)
    (hhead : path.head? ≠ some slash) : NormalForm path := by
  refine ⟨h.ne_nil, hback, hhead, h.last, fun name hname => ⟨?_, h.names name hname⟩⟩
  rintro rfl
  rcases nil_mem_components.mp hname with heq | heq | heq | heq
  · exact h.ne_nil heq
  · exact hhead heq
  · exact h.last heq
  · exact h.slashes heq

theorem NormalForm.clean {path : Path} (h : NormalForm path) (hdrive : ¬ ascii ":/" <:+: path) :
    Clean path :=
  ⟨h.ne_nil, h.last, fun hslashes => (h.names [] (nil_mem_components.mpr
    (.inr (.inr (.inr hslashes))))).1 rfl, fun name hname => (h.names name hname).2, hdrive⟩

/-- A separator in front of a clean path. -/
theorem clean_slash_cons {path : Path} :
    Clean (slash :: path) ↔ Clean path ∧ path.head? ≠ some slash := by
  have hascii : ascii ":/" = [':'.toUInt8, slash] := by decide
  have hcolon : ':'.toUInt8 ≠ slash := by decide
  have hdrive : ascii ":/" <:+: slash :: path ↔ ascii ":/" <:+: path := by
    rw [List.infix_cons_iff, hascii, List.cons_prefix_cons]
    simp only [hcolon, false_and, false_or]
  have hnames : (∀ name ∈ components (slash :: path), name ≠ [dot] ∧ name ≠ [dot, dot]) ↔
      ∀ name ∈ components path, name ≠ [dot] ∧ name ≠ [dot, dot] := by
    rw [components_cons, if_pos rfl, List.forall_mem_cons]
    exact and_iff_right ⟨by decide, by decide⟩
  have hslashes : [slash, slash] <:+: slash :: path ↔
      path.head? = some slash ∨ [slash, slash] <:+: path := by
    rw [List.infix_cons_iff, List.cons_prefix_cons]
    cases path with
    | nil => simp
    | cons c path => simp [List.cons_prefix_cons, eq_comm]
  constructor
  · rintro ⟨-, hlast, hslashes', hnames', hdrive'⟩
    rw [hslashes, not_or] at hslashes'
    have hne : path ≠ [] := by
      rintro rfl
      exact hlast rfl
    obtain ⟨c, rest, rfl⟩ := List.exists_cons_of_ne_nil hne
    rw [List.getLast?_cons_cons] at hlast
    exact ⟨⟨hne, hlast, hslashes'.2, hnames.mp hnames', mt hdrive.mpr hdrive'⟩, hslashes'.1⟩
  · rintro ⟨⟨hne, hlast, hslashes', hnames', hdrive'⟩, hhead⟩
    obtain ⟨c, rest, rfl⟩ := List.exists_cons_of_ne_nil hne
    refine ⟨List.cons_ne_nil _ _, by rwa [List.getLast?_cons_cons], ?_, hnames.mpr hnames',
      mt hdrive.mp hdrive'⟩
    rw [hslashes, not_or]
    exact ⟨hhead, hslashes'⟩

/-! ## What is accepted

The checks of the source are a chain of conditions that each throw, so acceptance is a conjunction.
It is stated in terms of what is left when the leading `./`s are gone, because that is what the
later checks look at, and that is also the result. -/

/-- The path without its leading `./`s. -/
def core (value : Bytes) : Bytes := stripDotSlash (slashForm value).length (slashForm value)

theorem normalize_eq (value : Bytes) : normalize value =
    if value = [] then .error (.invalidArgument "ignore path is required")
    else if (slashForm value).head? = some slash ∨ contains (slashForm value) (ascii ":/") then
      .error (.invalidArgument "ignore path must be task-relative")
    else if core value = [] ∨ (core value).getLast? = some slash ∨
        contains (core value) (ascii "//") then
      .error (.invalidArgument "ignore path must name a file or directory")
    else if (components (core value)).any fun c => c = [dot] ∨ c = [dot, dot] then
      .error (.invalidArgument "ignore path must not traverse directories")
    else .ok (core value) := rfl

/-- A nest of checks that was passed. -/
theorem ite_error_eq_ok {α : Type} {c : Prop} [Decidable c] {e : Error} {next : Except Error α}
    {a : α} : (if c then .error e else next) = .ok a ↔ ¬ c ∧ next = .ok a := by
  split
  · rename_i hc
    exact iff_of_false (by rintro ⟨⟩) fun h => h.1 hc
  · rename_i hc
    exact (and_iff_right hc).symm

/-- The checks on what is left, but for the drive. -/
theorem clean_iff {path : Path} : Clean path ↔
    ¬ (path = [] ∨ path.getLast? = some slash ∨ contains path (ascii "//") = true) ∧
      ¬ ((components path).any fun c => c = [dot] ∨ c = [dot, dot]) = true ∧
      ¬ ascii ":/" <:+: path := by
  have hslashes : ascii "//" = [slash, slash] := by decide
  have hany : ((components path).any fun c => c = [dot] ∨ c = [dot, dot]) = true ↔
      ¬ ∀ name ∈ components path, name ≠ [dot] ∧ name ≠ [dot, dot] := by
    rw [List.any_eq_true]
    push Not
    refine exists_congr fun name => and_congr_right fun _ => ?_
    rw [decide_eq_true_eq]
    tauto
  rw [hany, not_not, not_or, not_or, contains, decide_eq_true_eq, hslashes]
  constructor
  · intro h
    exact ⟨⟨h.ne_nil, h.last, h.slashes⟩, h.names, h.drive⟩
  · rintro ⟨⟨hne, hlast, hslashes⟩, hnames, hdrive⟩
    exact ⟨hne, hlast, hslashes, hnames, hdrive⟩

/-- **What `Normalize` accepts**: behind a number of `./`s a clean path, which it returns; without
a `./` the path may not start with a separator. -/
theorem normalize_eq_ok_iff {value path : Bytes} : normalize value = .ok path ↔
    Clean path ∧ ∃ i, slashForm value = dotSlashes i ++ path ∧
      (i = 0 → path.head? ≠ some slash) := by
  rw [normalize_eq, ite_error_eq_ok, ite_error_eq_ok, ite_error_eq_ok, ite_error_eq_ok, not_or,
    contains, decide_eq_true_eq, Except.ok.injEq]
  constructor
  · rintro ⟨-, ⟨hhead, hdrive⟩, hchecks, hnames, rfl⟩
    obtain ⟨i, rest, hvalue, hrest⟩ := exists_dotSlashes (slashForm value)
    have hcore : core value = rest := by rw [core, hvalue, stripDotSlash_eq hrest]
    rw [hcore] at hchecks hnames ⊢
    rw [hvalue, drive_infix_dotSlashes] at hdrive
    refine ⟨clean_iff.mpr ⟨hchecks, hnames, hdrive⟩, i, hvalue, ?_⟩
    rintro rfl
    rwa [hvalue] at hhead
  · rintro ⟨hclean, i, hvalue, hfirst⟩
    obtain ⟨hchecks, hnames, hdrive⟩ := clean_iff.mp hclean
    have hcore : core value = path := by
      rw [core, hvalue, stripDotSlash_eq hclean.not_dotSlash]
    rw [hcore, hvalue, drive_infix_dotSlashes]
    refine ⟨?_, ⟨?_, hdrive⟩, hchecks, hnames, rfl⟩
    · rintro rfl
      exact hclean.ne_nil (List.append_eq_nil_iff.mp hvalue.symm).2
    · cases i with
      | zero => exact hfirst rfl
      | succ i =>
        rw [dotSlashes, List.cons_append, List.head?_cons]
        decide

/-! ## Where a separator comes to the front -/

/-- The input is one or more `./`s, a separator and a path in normal form that has no drive. -/
def SlipsThrough (value : Bytes) : Prop :=
  ∃ i path, slashForm value = dotSlashes (i + 1) ++ slash :: path ∧ NormalForm path ∧
    ¬ ascii ":/" <:+: path

/-- Two inputs that differ in the kind of their separators and in the `./`s in front. -/
def SamePath (value value' : Bytes) : Prop :=
  ∃ i j path, slashForm value = dotSlashes i ++ path ∧ slashForm value' = dotSlashes j ++ path

/-- Both are accepted, with the same result, or both are rejected. -/
def Agree (value value' : Bytes) : Prop :=
  ∀ path, normalize value = .ok path ↔ normalize value' = .ok path

/-- What is accepted is in normal form, and accepted unchanged. -/
def Normalizes (value : Bytes) : Prop :=
  ∀ path, normalize value = .ok path → NormalForm path ∧ normalize path = .ok path

/-- **A result is in normal form unless a separator came to the front.**  This is the one slip of
the function: after `./` has been taken off the front, a separator there is not looked for again. -/
theorem normalize_cases {value path : Bytes} (h : normalize value = .ok path) :
    (NormalForm path ∧ Clean path ∧ ¬ SlipsThrough value) ∨
      (path.head? = some slash ∧ SlipsThrough value) := by
  obtain ⟨hclean, i, hvalue, hfirst⟩ := normalize_eq_ok_iff.mp h
  have hback : '\\'.toUInt8 ∉ path := fun hmem =>
    backslash_notMem_slashForm value (hvalue ▸ List.mem_append_right _ hmem)
  by_cases hhead : path.head? = some slash
  · refine .inr ⟨hhead, ?_⟩
    obtain ⟨rest, rfl⟩ := List.head?_eq_some_iff.mp hhead
    obtain ⟨hrest, hnext⟩ := clean_slash_cons.mp hclean
    cases i with
    | zero => exact absurd hhead (hfirst rfl)
    | succ i =>
      exact ⟨i, rest, hvalue,
        hrest.normalForm (fun hmem => hback (List.mem_cons_of_mem _ hmem)) hnext, hrest.drive⟩
  · refine .inl ⟨hclean.normalForm hback hhead, hclean, ?_⟩
    rintro ⟨j, rest, hslip, hrest, hdrive⟩
    have hslash : Clean (slash :: rest) := clean_slash_cons.mpr ⟨hrest.clean hdrive, hrest.head⟩
    -- the `./`s can only be taken away in one way
    have hsame : core value = path := by rw [core, hvalue, stripDotSlash_eq hclean.not_dotSlash]
    rw [core, hslip, stripDotSlash_eq hslash.not_dotSlash] at hsame
    rw [← hsame] at hhead
    exact hhead rfl

/-- Such an input is accepted. -/
theorem SlipsThrough.normalize {value : Bytes} (h : SlipsThrough value) :
    ∃ path, normalize value = .ok path ∧ path.head? = some slash := by
  obtain ⟨i, rest, hvalue, hrest, hdrive⟩ := h
  refine ⟨slash :: rest, normalize_eq_ok_iff.mpr ⟨clean_slash_cons.mpr ⟨hrest.clean hdrive,
    hrest.head⟩, i + 1, hvalue, fun hzero => absurd hzero (Nat.succ_ne_zero i)⟩, rfl⟩

theorem normalizes_iff (value : Bytes) : Normalizes value ↔ ¬ SlipsThrough value := by
  constructor
  · intro h hslips
    obtain ⟨path, hpath, hhead⟩ := hslips.normalize
    exact (h path hpath).1.head hhead
  · intro hslips path h
    rcases normalize_cases h with ⟨hnormal, hclean, -⟩ | ⟨-, hbad⟩
    · refine ⟨hnormal, normalize_eq_ok_iff.mpr ⟨hclean, 0, ?_, fun _ => hnormal.head⟩⟩
      exact slashForm_of_notMem hnormal.backslash
    · exact absurd hbad hslips

/-- What is accepted of one form of a path is accepted of the other. -/
theorem SamePath.normalize {value value' path : Bytes} (hsame : SamePath value value')
    (hslips : ¬ SlipsThrough value) (h : normalize value = .ok path) :
    normalize value' = .ok path := by
  obtain ⟨hclean, i, hvalue, -⟩ := normalize_eq_ok_iff.mp h
  obtain ⟨j, k, rest, hj, hk⟩ := hsame
  obtain ⟨l, rest', hrest, hstripped⟩ := exists_dotSlashes rest
  have happend : ∀ m n, dotSlashes m ++ dotSlashes n = dotSlashes (m + n) := by
    intro m n
    induction m with
    | zero => rw [Nat.zero_add]; rfl
    | succ m ih => rw [dotSlashes, List.cons_append, List.cons_append, ih, Nat.succ_add]; rfl
  have hpath : path = rest' := by
    have hcore : core value = path := by rw [core, hvalue, stripDotSlash_eq hclean.not_dotSlash]
    rw [← hcore, core, hj, hrest, ← List.append_assoc, happend, stripDotSlash_eq hstripped]
  rcases normalize_cases h with ⟨hnormal, -, -⟩ | ⟨-, hbad⟩
  · refine normalize_eq_ok_iff.mpr ⟨hclean, k + l, ?_, fun _ => hnormal.head⟩
    rw [hk, hrest, ← List.append_assoc, happend, hpath]
  · exact absurd hbad hslips

end IgnoreRules

/-- **`Normalize` yields normal forms, the same for all spellings of a path, unless a separator
comes to the front.** -/
theorem normalize_normal_form (value value' : Bytes) :
    IgnoreRules.Normalizes value ∧ IgnoreRules.Normalizes value' ∧
        (IgnoreRules.SamePath value value' → IgnoreRules.Agree value value') ↔
      ¬ IgnoreRules.SlipsThrough value ∧ ¬ IgnoreRules.SlipsThrough value' := by
  rw [IgnoreRules.normalizes_iff, IgnoreRules.normalizes_iff, ← and_assoc]
  refine and_iff_left_of_imp ?_
  rintro ⟨hslips, hslips'⟩ ⟨i, j, rest, hvalue, hvalue'⟩ path
  exact ⟨IgnoreRules.SamePath.normalize ⟨i, j, rest, hvalue, hvalue'⟩ hslips,
    IgnoreRules.SamePath.normalize ⟨j, i, rest, hvalue', hvalue⟩ hslips'⟩

/-- A doubled separator behind a `./` is accepted, as a path that is not accepted itself. -/
theorem normalize_dot_slash_slash :
    IgnoreRules.normalize (ascii ".//a") = .ok (ascii "/a") ∧
      (∃ e, IgnoreRules.normalize (ascii "/a") = .error e) ∧
      ¬ IgnoreRules.Normalizes (ascii ".//a") ∧
      ¬ (IgnoreRules.SamePath (ascii ".//a") (ascii "/a") →
        IgnoreRules.Agree (ascii ".//a") (ascii "/a")) := by
  have haccepted : IgnoreRules.normalize (ascii ".//a") = .ok (ascii "/a") := by decide +kernel
  have hrejected : IgnoreRules.normalize (ascii "/a") =
      .error (.invalidArgument "ignore path must be task-relative") := by decide +kernel
  refine ⟨haccepted, ⟨_, hrejected⟩, fun h => ?_, fun h => ?_⟩
  · have hagain := (h _ haccepted).2
    rw [hrejected] at hagain
    cases hagain
  · have hagree := (h ⟨1, 0, ascii "/a", by decide, by decide⟩ _).mp haccepted
    rw [hrejected] at hagree
    cases hagree

end VeritasSync
