import VeritasSync.Storage.IgnoreRules

/-!
# What an ignore rule covers

The loop over the components of a path works with positions.  Here the positions are read as the
three parts of the path they delimit: what precedes a component, the component, and what follows
it.

What is here:

* `ComponentAt` — a component where it stands in a path, and `overComponents_iff`, which says that
  the loop visits all of them and nothing else;
* `ruleMatches_plain`, `ruleMatches_leading` — a directory rule looks at every component, or at
  every prefix of the path that ends at a component;
* `ignores_iff` — the last matching rule of the file decides;
* `isIgnored_engine_file` — what no rule file can bring back.

A rule is held against a path in one of three ways.  A pattern with a separator in it, or in front
of it, is held against the whole path; a plain name against each component; and a directory rule,
whichever of the two it is, against what precedes the end of a component, so that it also covers
what lies below.  The last one is where the positions matter, and where it pays to have the parts of
the path instead.
-/

set_option autoImplicit false

namespace VeritasSync

namespace IgnoreRules

/-! ## Components where they stand -/

/-- A component where it stands in a path: what precedes it ends in a separator, and what follows
it starts with one. -/
structure ComponentAt (path before name after : Bytes) : Prop where
  path_eq : path = before ++ (name ++ after)
  free : slash ∉ name
  starts : ∀ c ∈ before.getLast?, c = slash
  stops : ∀ c ∈ after.head?, c = slash

theorem componentAt_of_notMem {path before name after : Bytes} (h : slash ∉ path) :
    ComponentAt path before name after ↔ before = [] ∧ name = path ∧ after = [] := by
  constructor
  · intro hat
    have hbefore : before = [] := by
      cases hlast : before.getLast? with
      | none => exact List.getLast?_eq_none_iff.mp hlast
      | some c =>
        have hc : slash ∈ before := hat.starts c hlast ▸ List.mem_of_getLast? hlast
        exact absurd (hat.path_eq ▸ List.mem_append_left _ hc) h
    have hafter : after = [] := by
      cases after with
      | nil => rfl
      | cons c after =>
        have hc : slash ∈ c :: after := hat.stops c rfl ▸ List.mem_cons_self
        exact absurd (hat.path_eq ▸ List.mem_append_right _ (List.mem_append_right _ hc)) h
    refine ⟨hbefore, ?_, hafter⟩
    rw [hat.path_eq, hbefore, hafter, List.nil_append, List.append_nil]
  · rintro ⟨rfl, rfl, rfl⟩
    exact ⟨by simp, h, by simp, by simp⟩

/-- Two readings of a path up to its first separator are the same. -/
theorem eq_of_append_slash {name after first rest : Bytes} (hname : slash ∉ name)
    (hstops : ∀ c ∈ after.head?, c = slash) (hfirst : slash ∉ first)
    (h : name ++ after = first ++ slash :: rest) : name = first ∧ after = slash :: rest := by
  rcases List.append_eq_append_iff.mp h with ⟨t, rfl, ht⟩ | ⟨t, rfl, ht⟩
  · cases t with
    | nil => exact ⟨(List.append_nil name).symm, ht⟩
    | cons c t =>
      have hc : c = slash := hstops c (by rw [ht]; rfl)
      exact absurd (List.mem_append_right _ (hc ▸ List.mem_cons_self)) hfirst
  · cases t with
    | nil => exact ⟨List.append_nil first, ht.symm⟩
    | cons c t =>
      have hc : slash = c := (List.cons.inj ht).1
      exact absurd (List.mem_append_right _ (hc ▸ List.mem_cons_self)) hname

/-- The components of a path that has a separator: the one before the first separator, and those
of the rest. -/
theorem componentAt_cons {first rest before name after : Bytes} (h : slash ∉ first) :
    ComponentAt (first ++ slash :: rest) before name after ↔
      (before = [] ∧ name = first ∧ after = slash :: rest) ∨
        ∃ more, before = first ++ slash :: more ∧ ComponentAt rest more name after := by
  constructor
  · rintro ⟨hpath, hfree, hstarts, hstops⟩
    have hnil : ∀ t, first = before ++ t → before = [] := by
      rintro t rfl
      cases hlast : before.getLast? with
      | none => exact List.getLast?_eq_none_iff.mp hlast
      | some c =>
        have hc : slash ∈ before := hstarts c hlast ▸ List.mem_of_getLast? hlast
        exact absurd (List.mem_append_left _ hc) h
    have hleft : before = [] → before = [] ∧ name = first ∧ after = slash :: rest := by
      rintro rfl
      exact ⟨rfl, eq_of_append_slash hfree hstops h hpath.symm⟩
    rcases List.append_eq_append_iff.mp hpath with ⟨t, rfl, ht⟩ | ⟨t, ht, -⟩
    · cases t with
      | nil => exact .inl (hleft (hnil [] (by simp)))
      | cons c t =>
        obtain ⟨rfl, hrest⟩ := List.cons.inj ht
        exact .inr ⟨t, rfl, hrest, hfree, by grind, hstops⟩
    · exact .inl (hleft (hnil t ht))
  · rintro (⟨rfl, rfl, rfl⟩ | ⟨more, rfl, hpath, hfree, hstarts, hstops⟩)
    · exact ⟨rfl, h, by simp, by simp⟩
    · exact ⟨by simp [hpath], hfree, by grind, hstops⟩

/-- A path is one component, or a component, a separator and a path. -/
theorem slash_cases (path : Bytes) :
    slash ∉ path ∨ ∃ first rest, slash ∉ first ∧ path = first ++ slash :: rest := by
  by_cases h : slash ∈ path
  · obtain ⟨first, rest, hpath, hfirst⟩ := List.eq_append_cons_of_mem h
    exact .inr ⟨first, rest, hfirst, hpath⟩
  · exact .inl h

/-- Induction along the components of a path. -/
theorem path_induction {motive : Bytes → Prop} (last : ∀ name, slash ∉ name → motive name)
    (cons : ∀ first rest, slash ∉ first → motive rest → motive (first ++ slash :: rest))
    (path : Bytes) : motive path := by
  induction hn : path.length using Nat.strong_induction_on generalizing path with
  | _ n ih =>
    rcases slash_cases path with hfree | ⟨first, rest, hfirst, rfl⟩
    · exact last path hfree
    · refine cons first rest hfirst (ih rest.length ?_ rest rfl)
      rw [← hn, List.length_append, List.length_cons]
      omega

theorem mem_components_iff {path name : Bytes} :
    name ∈ components path ↔ ∃ before after, ComponentAt path before name after := by
  induction path using path_induction with
  | last path hfree =>
    rw [components, List.splitOn_eq_singleton hfree, List.mem_singleton]
    simp only [componentAt_of_notMem hfree]
    constructor
    · rintro rfl
      exact ⟨[], [], rfl, rfl, rfl⟩
    · rintro ⟨_, _, -, h, -⟩
      exact h
  | cons first rest hfirst ih =>
    rw [components, List.splitOn_append_cons_self_of_not_mem hfirst, List.mem_cons, ← components,
      ih]
    simp only [componentAt_cons hfirst]
    constructor
    · rintro (rfl | ⟨before, after, h⟩)
      · exact ⟨[], _, .inl ⟨rfl, rfl, rfl⟩⟩
      · exact ⟨_, after, .inr ⟨before, rfl, h⟩⟩
    · rintro ⟨_, after, ⟨-, rfl, -⟩ | ⟨before, rfl, h⟩⟩
      · exact .inl rfl
      · exact .inr ⟨before, after, h⟩

/-! ## The loop -/

theorem find_append {before rest : Bytes} :
    find slash (before ++ rest) before.length =
      (rest.findIdx? fun b => b = slash).map fun i => before.length + i := by
  rw [find, List.drop_left]

theorem findIdx?_of_notMem {text : Bytes} (h : slash ∉ text) :
    (text.findIdx? fun b => b = slash) = none := by
  rw [List.findIdx?_eq_none_iff]
  intro b hb
  exact decide_eq_false fun heq => h (heq ▸ hb)

/-- Where a component ends, if it is not the last one. -/
def stopOf (start name after : Bytes) : Option Nat :=
  if after = [] then none else some (start ++ name).length

/-- **The loop over the components visits each of them**, with the two ends it has in the path. -/
theorem overComponents_iff {found : Nat → Option Nat → Bool} {fuel : Nat} {before rest : Bytes}
    (hfuel : rest.length < fuel) :
    overComponents (before ++ rest) found fuel before.length = true ↔
      ∃ more name after, ComponentAt rest more name after ∧
        found (before ++ more).length (stopOf (before ++ more) name after) = true := by
  induction fuel generalizing before rest with
  | zero => cases hfuel
  | succ fuel ih =>
    rw [overComponents, if_neg (by simp), find_append]
    rcases slash_cases rest with hfree | ⟨first, rest, hfirst, rfl⟩
    · simp only [findIdx?_of_notMem hfree, Option.map_none, Bool.or_false,
        componentAt_of_notMem hfree]
      constructor
      · intro h
        exact ⟨[], rest, [], ⟨rfl, rfl, rfl⟩, by simpa [stopOf] using h⟩
      · rintro ⟨_, _, _, ⟨rfl, rfl, rfl⟩, h⟩
        simpa [stopOf] using h
    · have hsome : ((first ++ slash :: rest).findIdx? fun b => b = slash) = some first.length := by
        rw [List.findIdx?_append, findIdx?_of_notMem hfirst]
        simp [List.findIdx?_cons]
      have hnext : rest.length < fuel := by
        rw [List.length_append, List.length_cons] at hfuel
        omega
      have hpath : before ++ (first ++ slash :: rest) = before ++ first ++ [slash] ++ rest := by
        simp
      have hstart : before.length + first.length + 1 = (before ++ first ++ [slash]).length := by
        simp [Nat.add_assoc]
      simp only [hsome, Option.map_some, componentAt_cons hfirst, Bool.or_eq_true]
      rw [hpath, hstart, ih hnext]
      constructor
      · rintro (h | ⟨more, name, after, hat, h⟩)
        · exact ⟨[], first, slash :: rest, .inl ⟨rfl, rfl, rfl⟩, by simpa [stopOf] using h⟩
        · exact ⟨first ++ slash :: more, name, after, .inr ⟨more, rfl, hat⟩,
            by simpa [stopOf] using h⟩
      · rintro ⟨_, name, after, ⟨rfl, rfl, rfl⟩ | ⟨more, rfl, hat⟩, h⟩
        · exact .inl (by simpa [stopOf] using h)
        · exact .inr ⟨more, name, after, hat, by simpa [stopOf] using h⟩

theorem overComponents_path_iff {path : Bytes} {found : Nat → Option Nat → Bool} :
    overComponents path found (path.length + 1) 0 = true ↔
      ∃ before name after, ComponentAt path before name after ∧
        found before.length (stopOf before name after) = true :=
  @overComponents_iff found (path.length + 1) [] path (Nat.lt_succ_self path.length)

/-! ## What a rule covers

A directory above a path is a prefix of it that ends where one of its components ends.  So what the
documentation says about directories and the loop over the ends of the components are about the same
prefixes, and a rule that matches one of them matches it for every path below as well. -/

theorem ComponentAt.substr_name {path before name after : Bytes}
    (h : ComponentAt path before name after) : substr path before.length name.length = name := by
  rw [substr, h.path_eq, List.drop_left, List.take_left]

theorem ComponentAt.substr_prefix {path before name after : Bytes}
    (h : ComponentAt path before name after) :
    substr path 0 (before ++ name).length = before ++ name := by
  rw [substr, h.path_eq, List.drop_zero, ← List.append_assoc, List.take_left]

/-- What `Matches` takes for the end of the component. -/
theorem ComponentAt.getD_stopOf {path before name after : Bytes}
    (h : ComponentAt path before name after) :
    (stopOf before name after).getD path.length = (before ++ name).length := by
  rw [stopOf]
  split
  · rename_i hafter
    rw [Option.getD_none, h.path_eq, hafter, List.append_nil]
  · rfl

/-- `directory` is the path or a directory above it. -/
def IsDirectoryOf (directory path : Path) : Prop := directory = path ∨ IsBelow directory path

/-- A path ends in a component. -/
theorem exists_last_component (path : Bytes) : ∃ before name, ComponentAt path before name [] := by
  induction path using path_induction with
  | last name hfree => exact ⟨[], name, (componentAt_of_notMem hfree).mpr ⟨rfl, rfl, rfl⟩⟩
  | cons first rest hfirst ih =>
    obtain ⟨before, name, h⟩ := ih
    exact ⟨_, name, (componentAt_cons hfirst).mpr (.inr ⟨before, rfl, h⟩)⟩

/-- The prefixes of a path that end at a component. -/
theorem isDirectoryOf_iff {directory path : Path} :
    IsDirectoryOf directory path ↔
      ∃ before name after, ComponentAt path before name after ∧ directory = before ++ name := by
  constructor
  · intro h
    obtain ⟨before, name, hat⟩ := exists_last_component directory
    have hdirectory : directory = before ++ name := by rw [hat.path_eq, List.append_nil]
    rcases h with rfl | ⟨t, ht⟩
    · exact ⟨before, name, [], hat, hdirectory⟩
    · refine ⟨before, name, slash :: t, ⟨?_, hat.free, hat.starts, by simp⟩, hdirectory⟩
      rw [← ht, below, hdirectory]
      simp
  · rintro ⟨before, name, after, hat, rfl⟩
    cases after with
    | nil => exact .inl (by rw [hat.path_eq, List.append_nil])
    | cons c after =>
      refine .inr ⟨after, ?_⟩
      rw [hat.path_eq, hat.stops c rfl, below]
      simp

/-- What `MatchesAnyComponent` takes for the component. -/
theorem ComponentAt.substr_stopOf {path before name after : Bytes}
    (h : ComponentAt path before name after) :
    substr path before.length ((stopOf before name after).getD path.length - before.length) =
      name := by
  rw [h.getD_stopOf, List.length_append, Nat.add_sub_cancel_left, h.substr_name]

theorem matchesAnyComponent_iff {pattern path : Bytes} :
    matchesAnyComponent pattern path = true ↔
      ∃ name ∈ components path, matchesGlob pattern name = true := by
  rw [matchesAnyComponent, overComponents_path_iff]
  constructor
  · rintro ⟨before, name, after, hat, h⟩
    rw [hat.substr_stopOf] at h
    exact ⟨name, mem_components_iff.mpr ⟨before, after, hat⟩, h⟩
  · rintro ⟨name, hname, h⟩
    obtain ⟨before, after, hat⟩ := mem_components_iff.mp hname
    refine ⟨before, name, after, hat, ?_⟩
    rw [hat.substr_stopOf]
    exact h

/-- A rule that is a plain name is held against every component. -/
def Rule.IsPlain (rule : Rule) : Prop := rule.rooted = false ∧ slash ∉ rule.pattern

instance (rule : Rule) : Decidable rule.IsPlain :=
  inferInstanceAs (Decidable (_ ∧ _))

theorem Rule.isPlain_iff {rule : Rule} :
    (!rule.rooted && !rule.pattern.contains slash) = true ↔ rule.IsPlain := by
  simp [Rule.IsPlain]

theorem ruleMatches_plain {rule : Rule} (hplain : rule.IsPlain) {path : Bytes} :
    ruleMatches rule path = true ↔
      ∃ name ∈ components path, matchesGlob rule.pattern name = true := by
  rw [ruleMatches]
  simp only [Rule.isPlain_iff.mpr hplain]
  cases rule.directoryOnly with
  | false => exact matchesAnyComponent_iff
  | true =>
    simp only [Bool.not_true, Bool.false_eq_true, if_false, Bool.true_and, Bool.false_and,
      Bool.or_false, overComponents_path_iff]
    have hname : ∀ {before name after : Bytes}, ComponentAt path before name after →
        substr path before.length
          ((substr path 0 ((stopOf before name after).getD path.length)).length - before.length) =
            name := by
      intro before name after hat
      rw [hat.getD_stopOf, hat.substr_prefix, List.length_append, Nat.add_sub_cancel_left,
        hat.substr_name]
    constructor
    · rintro ⟨before, name, after, hat, h⟩
      rw [hname hat] at h
      exact ⟨name, mem_components_iff.mpr ⟨before, after, hat⟩, h⟩
    · rintro ⟨name, hmem, h⟩
      obtain ⟨before, after, hat⟩ := mem_components_iff.mp hmem
      refine ⟨before, name, after, hat, ?_⟩
      rw [hname hat]
      exact h

theorem ruleMatches_leading {rule : Rule} (hplain : ¬rule.IsPlain)
    (hdir : rule.directoryOnly = true)
    {path : Bytes} :
    ruleMatches rule path = true ↔
      ∃ directory, IsDirectoryOf directory path ∧ matchesGlob rule.pattern directory = true := by
  have hfalse : (!rule.rooted && !rule.pattern.contains slash) = false :=
    Bool.eq_false_iff.mpr fun h => hplain (Rule.isPlain_iff.mp h)
  rw [ruleMatches]
  simp only [hfalse, hdir, Bool.not_true, Bool.not_false, Bool.false_eq_true, if_false,
    Bool.true_and, Bool.false_and, Bool.false_or, overComponents_path_iff, isDirectoryOf_iff]
  constructor
  · rintro ⟨before, name, after, hat, h⟩
    rw [hat.getD_stopOf, hat.substr_prefix] at h
    exact ⟨_, ⟨before, name, after, hat, rfl⟩, h⟩
  · rintro ⟨_, ⟨before, name, after, hat, rfl⟩, h⟩
    refine ⟨before, name, after, hat, ?_⟩
    rw [hat.getD_stopOf, hat.substr_prefix]
    exact h

/-- What a directory rule asks of a path. -/
theorem ruleMatches_directory {rule : Rule} (hdir : rule.directoryOnly = true) (path : Bytes) :
    ruleMatches rule path = true ↔
      if rule.IsPlain then ∃ name ∈ components path, matchesGlob rule.pattern name = true
      else ∃ directory, IsDirectoryOf directory path ∧
        matchesGlob rule.pattern directory = true := by
  split
  · rename_i hplain
    exact ruleMatches_plain hplain
  · rename_i hplain
    exact ruleMatches_leading hplain hdir

theorem IsDirectoryOf.of_isBelow {directory path q : Path} (h : IsDirectoryOf directory path)
    (hq : IsBelow path q) : IsDirectoryOf directory q := by
  rcases h with rfl | ⟨t, rfl⟩
  · exact .inr hq
  · obtain ⟨u, rfl⟩ := hq
    exact .inr ⟨t ++ slash :: u, by simp [below]⟩

theorem mem_components_of_isBelow {path q name : Path} (hq : IsBelow path q)
    (h : name ∈ components path) : name ∈ components q := by
  obtain ⟨t, rfl⟩ := hq
  rw [components, below, List.append_assoc, List.singleton_append, List.splitOn_append_cons_self]
  exact List.mem_append_left _ h

/-- A directory rule that matches a path matches what is below it. -/
theorem ruleMatches_of_isBelow {rule : Rule} (hdir : rule.directoryOnly = true) {path q : Path}
    (hq : IsBelow path q) (h : ruleMatches rule path = true) : ruleMatches rule q = true := by
  by_cases hplain : rule.IsPlain
  · obtain ⟨name, hname, hglob⟩ := (ruleMatches_plain hplain).mp h
    exact (ruleMatches_plain hplain).mpr ⟨name, mem_components_of_isBelow hq hname, hglob⟩
  · obtain ⟨directory, hdirectory, hglob⟩ := (ruleMatches_leading hplain hdir).mp h
    exact (ruleMatches_leading hplain hdir).mpr ⟨directory, hdirectory.of_isBelow hq, hglob⟩

/-! ## The last matching rule decides -/

/-- The last rule of the list that matches the path exists and does not bring the path back. -/
def LastMatchIgnores (rules : List Rule) (path : Bytes) : Prop :=
  ∃ earlier rule later, rules = earlier ++ rule :: later ∧ ruleMatches rule path = true ∧
    rule.negated = false ∧ ∀ r ∈ later, ruleMatches r path = false

theorem lastMatchIgnores_concat {rules : List Rule} {last : Rule} {path : Bytes} :
    LastMatchIgnores (rules ++ [last]) path ↔
      if ruleMatches last path then last.negated = false else LastMatchIgnores rules path := by
  constructor
  · rintro ⟨earlier, rule, later, heq, hmatch, hneg, hlater⟩
    rcases List.eq_nil_or_concat' later with rfl | ⟨later, r, rfl⟩
    · obtain ⟨rfl, hlast⟩ := List.append_inj' heq rfl
      obtain rfl := List.singleton_inj.mp hlast
      rw [if_pos hmatch]
      exact hneg
    · rw [← List.cons_append, ← List.append_assoc] at heq
      obtain ⟨rfl, hlast⟩ := List.append_inj' heq rfl
      obtain rfl := List.singleton_inj.mp hlast
      rw [if_neg (by rw [hlater last (by simp)]; exact Bool.false_ne_true)]
      exact ⟨earlier, rule, later, rfl, hmatch, hneg, fun r hr => hlater r (by simp [hr])⟩
  · split
    · rename_i hmatch
      intro hneg
      exact ⟨rules, last, [], rfl, hmatch, hneg, by simp⟩
    · rename_i hmatch
      rintro ⟨earlier, rule, later, rfl, hrule, hneg, hlater⟩
      refine ⟨earlier, rule, later ++ [last], by simp, hrule, hneg, fun r hr => ?_⟩
      rcases List.mem_append.mp hr with hr | hr
      · exact hlater r hr
      · rw [List.mem_singleton.mp hr]
        exact Bool.eq_false_iff.mpr hmatch

/-- The loop of `IsIgnored` over the rules of the file. -/
theorem foldl_eq_lastMatch (rules : List Rule) (path : Bytes) :
    rules.foldl (fun ignored rule => if ruleMatches rule path then !rule.negated else ignored)
      false = true ↔ LastMatchIgnores rules path := by
  induction rules using List.reverseRecOn with
  | nil =>
    refine iff_of_false Bool.false_ne_true ?_
    rintro ⟨earlier, rule, later, h, -⟩
    exact absurd h (by simp)
  | append_singleton rules last ih =>
    rw [List.foldl_append, lastMatchIgnores_concat, List.foldl_cons, List.foldl_nil]
    split
    · rw [Bool.not_eq_true']
    · exact ih

theorem ignores_iff (rules : IgnoreRules) (path : Bytes) :
    rules.ignores path = true ↔
      (∃ rule ∈ defaults, ruleMatches rule path = true) ∨ LastMatchIgnores rules.rules path := by
  rw [ignores, Bool.or_eq_true, List.any_eq_true, foldl_eq_lastMatch]

/-- **A directory rule covers exactly a subtree, and the last matching rule decides.**  A directory
rule matches a path when its pattern matches some component of it (a plain name) or some prefix of
it that ends at a component; then it matches every path below. -/
theorem directory_rules_cover_subtrees :
    (∀ rule : Rule, rule.directoryOnly = true → ∀ path : Path, ruleMatches rule path = true ↔
      if rule.IsPlain then ∃ name ∈ components path, matchesGlob rule.pattern name = true
      else ∃ directory, IsDirectoryOf directory path ∧ matchesGlob rule.pattern directory = true) ∧
    (∀ rule : Rule, rule.directoryOnly = true → ∀ path q : Path, IsBelow path q →
      ruleMatches rule path = true → ruleMatches rule q = true) ∧
    ∀ (text : Bytes) (rules : IgnoreRules), load text = .ok rules →
      ∀ value path : Path, normalize value = .ok path →
        ∃ ignored, rules.isIgnored value = .ok ignored ∧
          (ignored = true ↔ (∃ rule ∈ defaults, ruleMatches rule path = true) ∨
            LastMatchIgnores rules.rules path) := by
  refine ⟨fun rule hdir path => ruleMatches_directory hdir path,
    fun rule hdir path q hq h => ruleMatches_of_isBelow hdir hq h,
    fun text rules _ value path hpath => ⟨rules.ignores path, ?_, ignores_iff rules path⟩⟩
  rw [isIgnored, hpath]
  rfl

/-- `build/` matches the directory, so it matches what is below it. -/
theorem build_covers_objects :
    ruleMatches ⟨ascii "build", false, false, true⟩ (ascii "src/build/x.o") = true :=
  directory_rules_cover_subtrees.2.1 _ rfl (ascii "src/build") _ ⟨ascii "x.o", rfl⟩
    (by decide +kernel)

end IgnoreRules

end VeritasSync
