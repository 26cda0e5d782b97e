import VeritasSync.Storage.IgnoreRules

/-!
# What a rule file may say

`Validate` and `Load` take the markers off a line with two pieces of code.  Here the reading of a
line is stated once, as a relation, and both are held against it.

What is here:

* `Unmarked`, `Spells` — a line and the rule it spells: the escape of a `!` or `#`, else the
  negation, then the leading and the trailing separator;
* `WellFormedPattern`, `WellFormed` — what a pattern and a text have to look like;
* `Escapes`, `ControlInClass` — the two lines `Validate` judges by something else than the pattern
  `Load` stores;
* `load_iff_wellFormed` — on all other texts they agree.

`Validate` takes a `!` off after it has taken the escape off, so an escaped line is judged without
its first byte; and its loop over the bytes of a pattern steps over what a class lists.
-/

set_option autoImplicit false

namespace VeritasSync

namespace IgnoreRules

/-! ## The rule a line spells -/

/-- The line holds a rule: it is neither blank nor a comment. -/
def IsRuleLine (line : Bytes) : Prop := trim line ≠ [] ∧ (trim line).head? ≠ some '#'.toUInt8

instance (line : Bytes) : Decidable (IsRuleLine line) := inferInstanceAs (Decidable (_ ∧ _))

/-- A trimmed line without the marker it starts with, and whether that negates the rule. -/
inductive Unmarked : Bytes → Bool → Bytes → Prop
  | escaped (c : UInt8) (rest : Bytes) (h : c = '!'.toUInt8 ∨ c = '#'.toUInt8) :
      Unmarked ('\\'.toUInt8 :: c :: rest) false (c :: rest)
  | negated (rest : Bytes) : Unmarked ('!'.toUInt8 :: rest) true rest
  | plain (text : Bytes) (hbang : text.head? ≠ some '!'.toUInt8)
      (hescape : ∀ c rest, text = '\\'.toUInt8 :: c :: rest →
        c ≠ '!'.toUInt8 ∧ c ≠ '#'.toUInt8) :
      Unmarked text false text

/-- The rule a trimmed line spells. -/
def Spells (body : Bytes) (rule : Rule) : Prop :=
  ∃ text, Unmarked body rule.negated text ∧
    text = (if rule.rooted then [slash] else []) ++
      (rule.pattern ++ if rule.directoryOnly then [slash] else []) ∧
    (rule.rooted = false → text.head? ≠ some slash) ∧
    (rule.directoryOnly = false → rule.pattern.getLast? ≠ some slash)

/-- Every `[` starts a class with something in it, and every `]` ends one. -/
inductive WellFormedClasses : Bytes → Prop
  | nil : WellFormedClasses []
  | byte {c : UInt8} {rest : Bytes} (hopen : c ≠ '['.toUInt8) (hclose : c ≠ ']'.toUInt8)
      (h : WellFormedClasses rest) : WellFormedClasses (c :: rest)
  | group {body rest : Bytes} (hbody : ']'.toUInt8 ∉ body) (hne : body ≠ [])
      (hbang : body ≠ ['!'.toUInt8]) (h : WellFormedClasses rest) :
      WellFormedClasses ('['.toUInt8 :: (body ++ ']'.toUInt8 :: rest))

/-- A pattern as the documentation wants it. -/
structure WellFormedPattern (pattern : Bytes) : Prop where
  components : ∀ c ∈ components pattern, c ≠ [] ∧ c ≠ [dot] ∧ c ≠ [dot, dot]
  escape : '\\'.toUInt8 ∉ pattern
  control : ∀ c ∈ pattern, 32 ≤ c.toNat
  classes : WellFormedClasses pattern

/-- The lines of a text that hold a rule. -/
def ruleLines (text : Bytes) : List Bytes := (textLines text).filter fun line => IsRuleLine line

/-- A rule text as the documentation wants it. -/
structure WellFormed (text : Bytes) : Prop where
  size : text.length ≤ 16 * 1024
  lines : ∀ line ∈ textLines text, line.length ≤ 512
  patterns : ∀ line ∈ ruleLines text, ∃ rule, Spells (trim line) rule ∧
    WellFormedPattern rule.pattern
  count : (ruleLines text).length ≤ 128
  some : text = [] ∨ ruleLines text ≠ []

/-! ## Where the two readings differ

There are two kinds of lines on which `Validate` and `Load` do not look at the same thing.  Both are
stated about the line and the pattern, without the code that takes the markers off, so that one can
see whether a given line is one of them. -/

/-- The line escapes a `!`, and without that `!` the pattern would not be one. -/
def Escapes (body pattern : Bytes) : Prop :=
  ascii "\\!" <+: body ∧ (pattern = ['!'.toUInt8] ∨
    (components pattern).head? = some (ascii "!.") ∨
    (components pattern).head? = some (ascii "!.."))

/-- Some class of the pattern lists a control character. -/
def ControlInClass (pattern : Bytes) : Prop :=
  ∃ before body after, pattern = before ++ '['.toUInt8 :: (body ++ ']'.toUInt8 :: after) ∧
    ']'.toUInt8 ∉ body ∧ ∃ c ∈ body, c.toNat < 32

/-! ## Taking the markers off -/

/-- `Load` on the marker a line starts with. -/
def unmark (body : Bytes) : Bool × Bytes :=
  let escapedBang := decide (ascii "\\!" <+: body)
  let text := if startsEscaped body then body.tail else body
  let negated := !escapedBang && text.head? = some '!'.toUInt8
  (negated, if negated then text.tail else text)

/-- `Load` on the rest of a line. -/
def spelled (negated : Bool) (text : Bytes) : Rule :=
  let rest := dropFront slash text
  ⟨dropBack slash rest, negated, decide (text.head? = some slash),
    decide (rest.getLast? = some slash)⟩

/-- The rule `Load` makes of a trimmed line. -/
def bodyRule (body : Bytes) : Rule := spelled (unmark body).1 (unmark body).2

/-- What `Validate` looks at. -/
def stripped (body : Bytes) : Bytes :=
  dropBack slash (dropFront slash (dropFront '!'.toUInt8
    (if startsEscaped body then body.tail else body)))

theorem parseLine_eq (line : Bytes) :
    parseLine line =
      if IsRuleLine line then
        if (bodyRule (trim line)).pattern = [] then none else some (bodyRule (trim line))
      else none := by
  rw [parseLine]
  by_cases h : trim line = [] ∨ (trim line).head? = some '#'.toUInt8
  · rw [if_neg fun hline : IsRuleLine line => h.elim hline.1 hline.2]
    simp only [if_pos h]
  · have hline : IsRuleLine line := not_or.mp h
    rw [if_pos hline]
    simp only [if_neg h]
    rfl

/-- How a trimmed line can start. -/
theorem body_cases (body : Bytes) :
    (∃ rest, body = '\\'.toUInt8 :: '!'.toUInt8 :: rest) ∨
      (∃ rest, body = '\\'.toUInt8 :: '#'.toUInt8 :: rest) ∨
      (∃ rest, body = '!'.toUInt8 :: rest) ∨
      (body.head? ≠ some '!'.toUInt8 ∧ ¬ascii "\\!" <+: body ∧ ¬ascii "\\#" <+: body) := by
  by_cases hbang : ascii "\\!" <+: body
  · obtain ⟨rest, rfl⟩ := hbang
    exact .inl ⟨rest, rfl⟩
  · by_cases hhash : ascii "\\#" <+: body
    · obtain ⟨rest, rfl⟩ := hhash
      exact .inr (.inl ⟨rest, rfl⟩)
    · by_cases hhead : body.head? = some '!'.toUInt8
      · obtain ⟨rest, rfl⟩ := List.head?_eq_some_iff.mp hhead
        exact .inr (.inr (.inl ⟨rest, rfl⟩))
      · exact .inr (.inr (.inr ⟨hhead, hbang, hhash⟩))

theorem startsEscaped_bang (rest : Bytes) :
    startsEscaped ('\\'.toUInt8 :: '!'.toUInt8 :: rest) = true := by
  rw [startsEscaped, Bool.or_eq_true, decide_eq_true_eq]
  exact .inl ⟨rest, rfl⟩

theorem startsEscaped_hash (rest : Bytes) :
    startsEscaped ('\\'.toUInt8 :: '#'.toUInt8 :: rest) = true := by
  rw [startsEscaped, Bool.or_eq_true, decide_eq_true_eq, decide_eq_true_eq]
  exact .inr ⟨rest, rfl⟩

theorem startsEscaped_negated (rest : Bytes) : startsEscaped ('!'.toUInt8 :: rest) = false := rfl

theorem startsEscaped_plain {body : Bytes} (hbang : ¬ascii "\\!" <+: body)
    (hhash : ¬ascii "\\#" <+: body) : startsEscaped body = false := by
  rw [startsEscaped, Bool.or_eq_false_iff]
  exact ⟨decide_eq_false hbang, decide_eq_false hhash⟩

theorem unmark_bang (rest : Bytes) :
    unmark ('\\'.toUInt8 :: '!'.toUInt8 :: rest) = (false, '!'.toUInt8 :: rest) := by
  have hbang : ascii "\\!" <+: '\\'.toUInt8 :: '!'.toUInt8 :: rest := ⟨rest, rfl⟩
  simp only [unmark, startsEscaped_bang, decide_eq_true hbang]
  rfl

theorem unmark_hash (rest : Bytes) :
    unmark ('\\'.toUInt8 :: '#'.toUInt8 :: rest) = (false, '#'.toUInt8 :: rest) := by
  simp only [unmark, startsEscaped_hash]
  rfl

theorem unmark_negated (rest : Bytes) : unmark ('!'.toUInt8 :: rest) = (true, rest) := rfl

theorem unmark_plain {body : Bytes} (hhead : body.head? ≠ some '!'.toUInt8)
    (hbang : ¬ascii "\\!" <+: body) (hhash : ¬ascii "\\#" <+: body) :
    unmark body = (false, body) := by
  simp [unmark, startsEscaped_plain hbang hhash, hhead]

theorem unmarked_unmark (body : Bytes) : Unmarked body (unmark body).1 (unmark body).2 := by
  rcases body_cases body with ⟨rest, rfl⟩ | ⟨rest, rfl⟩ | ⟨rest, rfl⟩ | ⟨hhead, hbang, hhash⟩
  · rw [unmark_bang]
    exact .escaped _ rest (.inl rfl)
  · rw [unmark_hash]
    exact .escaped _ rest (.inr rfl)
  · rw [unmark_negated]
    exact .negated rest
  · rw [unmark_plain hhead hbang hhash]
    refine .plain body hhead fun c rest hbody => ⟨?_, ?_⟩
    · rintro rfl
      exact hbang ⟨rest, hbody.symm⟩
    · rintro rfl
      exact hhash ⟨rest, hbody.symm⟩

theorem Unmarked.unmark_eq {body text : Bytes} {negated : Bool} (h : Unmarked body negated text) :
    unmark body = (negated, text) := by
  cases h with
  | escaped c rest h =>
    rcases h with rfl | rfl
    · exact unmark_bang rest
    · exact unmark_hash rest
  | negated => exact unmark_negated text
  | plain _ hbang hescape =>
    refine unmark_plain hbang ?_ ?_
    · rintro ⟨rest, h⟩
      exact (hescape _ rest h.symm).1 rfl
    · rintro ⟨rest, h⟩
      exact (hescape _ rest h.symm).2 rfl

/-- Dropping a byte at the front, if it is there, and putting it back. -/
theorem dropFront_eq {c : UInt8} {line rest : Bytes} {present : Bool} :
    (line = (if present then [c] else []) ++ rest ∧ (present = false → line.head? ≠ some c)) ↔
      (present = decide (line.head? = some c) ∧ rest = dropFront c line) := by
  rw [dropFront]
  cases line <;> cases present <;> grind

/-- Dropping a byte at the end, if it is there, and putting it back. -/
theorem dropBack_eq {c : UInt8} {line rest : Bytes} {present : Bool} :
    (line = rest ++ (if present then [c] else []) ∧ (present = false → line.getLast? ≠ some c)) ↔
      (present = decide (line.getLast? = some c) ∧ rest = dropBack c line) := by
  rw [dropBack]
  rcases List.eq_nil_or_concat' line with rfl | ⟨line, b, rfl⟩
  · cases present <;> simp
  · cases present <;> grind

theorem spells_iff {body : Bytes} {rule : Rule} : Spells body rule ↔ rule = bodyRule body := by
  obtain ⟨pattern, negated, rooted, directoryOnly⟩ := rule
  rw [bodyRule, spelled, Rule.mk.injEq]
  constructor
  · rintro ⟨text, hunmarked, htext, hrooted, hdirectory⟩
    obtain ⟨hroot, hrest⟩ := dropFront_eq.mp ⟨htext, hrooted⟩
    have hdirectory' : directoryOnly = false →
        (pattern ++ if directoryOnly then [slash] else []).getLast? ≠ some slash := by
      rintro rfl
      rw [if_neg Bool.false_ne_true, List.append_nil]
      exact hdirectory rfl
    obtain ⟨hdir, hpattern⟩ := dropBack_eq.mp ⟨rfl, hdirectory'⟩
    rw [hunmarked.unmark_eq, ← hrest]
    exact ⟨hpattern, rfl, hroot, hdir⟩
  · rintro ⟨hpattern, hnegated, hroot, hdir⟩
    obtain ⟨hrest, hdirectory⟩ := dropBack_eq.mpr ⟨hdir, hpattern⟩
    obtain ⟨htext, hrooted⟩ := dropFront_eq.mpr ⟨hroot, rfl⟩
    refine ⟨(unmark body).2, ?_, ?_, hrooted, ?_⟩
    · rw [hnegated]
      exact unmarked_unmark body
    · rw [← hrest]
      exact htext
    · rintro (hfalse : directoryOnly = false)
      rw [hfalse, if_neg Bool.false_ne_true, List.append_nil] at hrest
      exact hrest ▸ hdirectory hfalse

/-! ## What `Validate` accepts

The loop of `Validate` is described once more, as an inductive predicate on what it looks at.  The
constructors are the ways in which one round of the loop goes on; the positions are gone. -/

/-- The loop of `Validate` over the bytes of a pattern: outside the classes no control character,
and every class in order. -/
inductive Checked : Bytes → Prop
  | nil : Checked []
  | byte {c : UInt8} {rest : Bytes} (hcontrol : 32 ≤ c.toNat) (hopen : c ≠ '['.toUInt8)
      (hclose : c ≠ ']'.toUInt8) (h : Checked rest) : Checked (c :: rest)
  | group {body rest : Bytes} (hbody : ']'.toUInt8 ∉ body) (hne : body ≠ [])
      (hbang : body ≠ ['!'.toUInt8]) (h : Checked rest) :
      Checked ('['.toUInt8 :: (body ++ ']'.toUInt8 :: rest))

/-- What follows a `[`: no `]`, or a class body and what follows the class. -/
theorem class_cases (text : Bytes) :
    ']'.toUInt8 ∉ text ∨
      ∃ body rest, ']'.toUInt8 ∉ body ∧ text = body ++ ']'.toUInt8 :: rest := by
  by_cases h : ']'.toUInt8 ∈ text
  · obtain ⟨body, rest, htext, hbody⟩ := List.eq_append_cons_of_mem h
    exact .inr ⟨body, rest, hbody, htext⟩
  · exact .inl h

theorem takeWhile_class {body rest : Bytes} (hbody : ']'.toUInt8 ∉ body) :
    (body ++ ']'.toUInt8 :: rest).takeWhile (fun b => b ≠ ']'.toUInt8) = body := by
  rw [List.takeWhile_append_of_pos]
  · simp
  · intro b hb
    exact decide_eq_true fun h => hbody (h ▸ hb)

theorem takeWhile_no_class {text : Bytes} (h : ']'.toUInt8 ∉ text) :
    text.takeWhile (fun b => b ≠ ']'.toUInt8) = text := by
  rw [List.takeWhile_eq_self_iff]
  intro b hb
  exact decide_eq_true fun heq => h (heq ▸ hb)

theorem checked_open_iff {text : Bytes} :
    Checked ('['.toUInt8 :: text) ↔ ∃ body rest, text = body ++ ']'.toUInt8 :: rest ∧
      ']'.toUInt8 ∉ body ∧ body ≠ [] ∧ body ≠ ['!'.toUInt8] ∧ Checked rest := by
  constructor
  · intro h
    cases h with
    | byte _ hopen => exact absurd rfl hopen
    | group hbody hne hbang h => exact ⟨_, _, rfl, hbody, hne, hbang, h⟩
  · rintro ⟨body, rest, rfl, hbody, hne, hbang, h⟩
    exact .group hbody hne hbang h

theorem checked_byte_iff {c : UInt8} {rest : Bytes} (hopen : c ≠ '['.toUInt8) :
    Checked (c :: rest) ↔ 32 ≤ c.toNat ∧ c ≠ ']'.toUInt8 ∧ Checked rest := by
  constructor
  · intro h
    cases h with
    | byte hcontrol _ hclose h => exact ⟨hcontrol, hclose, h⟩
    | group => exact absurd rfl hopen
  · rintro ⟨hcontrol, hclose, h⟩
    exact .byte hcontrol hopen hclose h

theorem checkClasses_iff {lineNumber fuel : Nat} {pattern : Bytes}
    (hfuel : pattern.length ≤ fuel) :
    checkClasses lineNumber fuel pattern = .ok () ↔ Checked pattern := by
  induction fuel generalizing pattern with
  | zero =>
    obtain rfl := List.length_eq_zero_iff.mp (Nat.le_zero.mp hfuel)
    exact iff_of_true rfl .nil
  | succ fuel ih =>
    cases pattern with
    | nil => exact iff_of_true rfl .nil
    | cons c rest =>
      have hrest : rest.length ≤ fuel := Nat.le_of_succ_le_succ hfuel
      rw [checkClasses]
      by_cases hopen : c = '['.toUInt8
      · rw [if_neg (by rw [hopen]; decide), if_pos hopen, hopen, checked_open_iff]
        rcases class_cases rest with hnone | ⟨body, rest, hbody, rfl⟩
        · simp only [takeWhile_no_class hnone, true_or, if_true]
          refine iff_of_false (by simp) ?_
          rintro ⟨body, rest, rfl, -⟩
          exact hnone (by simp)
        · have hrest' : rest.length ≤ fuel := by
            rw [List.length_append, List.length_cons] at hrest
            omega
          have hdrop : (body ++ ']'.toUInt8 :: rest).drop (body.length + 1) = rest := by
            rw [List.drop_append, List.drop_eq_nil_of_le (by omega)]
            simp
          simp only [takeWhile_class hbody, hdrop]
          by_cases hbad : body = [] ∨ body = ['!'.toUInt8]
          · rw [if_pos (.inr hbad)]
            refine iff_of_false (by simp) ?_
            rintro ⟨body', rest', heq, hbody', hne, hbang, -⟩
            have hsame := congrArg (List.takeWhile fun b => decide (b ≠ ']'.toUInt8)) heq
            rw [takeWhile_class hbody, takeWhile_class hbody'] at hsame
            exact hbad.elim (hsame ▸ hne) (hsame ▸ hbang)
          · rw [if_neg (by simp; tauto), ih hrest']
            rw [not_or] at hbad
            constructor
            · exact fun h => ⟨body, rest, rfl, hbody, hbad.1, hbad.2, h⟩
            · rintro ⟨body', rest', heq, hbody', -, -, h⟩
              have hsame := congrArg (List.takeWhile fun b => decide (b ≠ ']'.toUInt8)) heq
              rw [takeWhile_class hbody, takeWhile_class hbody'] at hsame
              rw [hsame, List.append_cancel_left_eq, List.cons.injEq] at heq
              exact heq.2 ▸ h
      rw [checked_byte_iff hopen]
      by_cases hcontrol : c.toNat < 32
      · rw [if_pos hcontrol]
        exact iff_of_false (by simp) fun h => absurd hcontrol (not_lt.mpr h.1)
      rw [if_neg hcontrol, if_neg hopen]
      by_cases hclose : c = ']'.toUInt8
      · rw [if_pos hclose]
        exact iff_of_false (by simp) fun h => h.2.1 hclose
      · rw [if_neg hclose, ih hrest]
        exact ⟨fun h => ⟨not_lt.mp hcontrol, hclose, h⟩, fun h => h.2.2⟩

/-- What `Validate` wants of what it looks at. -/
structure Accepted (pattern : Bytes) : Prop where
  components : ∀ c ∈ components pattern, c ≠ [] ∧ c ≠ [dot] ∧ c ≠ [dot, dot]
  escape : '\\'.toUInt8 ∉ pattern
  checked : Checked pattern

theorem any_badName_iff {pattern : Bytes} :
    ((components pattern).any fun c => c = [] ∨ c = [dot] ∨ c = [dot, dot]) = true ↔
      ¬∀ c ∈ components pattern, c ≠ [] ∧ c ≠ [dot] ∧ c ≠ [dot, dot] := by
  rw [List.any_eq_true]
  simp only [decide_eq_true_eq]
  push Not
  refine exists_congr fun c => and_congr_right fun _ => ?_
  tauto

/-- What `Validate` says of a line. -/
theorem validateLine_iff {lineNumber : Nat} {line : Bytes} {holdsRule : Bool} :
    validateLine lineNumber line = .ok holdsRule ↔ line.length ≤ 512 ∧
      holdsRule = decide (IsRuleLine line) ∧
      (IsRuleLine line → Accepted (stripped (trim line))) := by
  rw [validateLine, unless_eq_ok, not_lt]
  refine and_congr_right fun _ => ?_
  by_cases hblank : trim line = [] ∨ (trim line).head? = some '#'.toUInt8
  · have hline : ¬IsRuleLine line := fun hline => hblank.elim hline.1 hline.2
    simp only [if_pos hblank, hline, decide_false, false_implies, and_true]
    exact ⟨fun h => (Except.ok.inj h).symm, fun h => h ▸ rfl⟩
  have hline : IsRuleLine line := not_or.mp hblank
  have hstripped : dropBack slash (dropFront slash (dropFront '!'.toUInt8
      (if startsEscaped (trim line) then (trim line).tail else trim line))) =
        stripped (trim line) := rfl
  simp only [if_neg hblank, hline, decide_true, forall_const, hstripped, unless_eq_ok]
  have hcheck := @checkClasses_iff lineNumber _ (stripped (trim line)) le_rfl
  rw [any_badName_iff]
  constructor
  · rintro ⟨hne, hescape, hnames, h⟩
    obtain ⟨_, hclasses, h⟩ := ok_of_bind h
    exact ⟨(Except.ok.inj h).symm, not_not.mp hnames, hescape, hcheck.mp hclasses⟩
  · rintro ⟨rfl, hnames, hescape, hchecked⟩
    refine ⟨?_, hescape, not_not.mpr hnames, by rw [hcheck.mpr hchecked]; rfl⟩
    intro hnil
    rw [hnil] at hnames
    exact (hnames [] List.mem_cons_self).1 rfl

/-- The loop of `Validate` over the lines. -/
theorem countRules_iff {lineNumber ruleCount total : Nat} {lines : List Bytes}
    (hcount : ruleCount ≤ 128) :
    countRules lineNumber ruleCount lines = .ok total ↔
      (∀ line ∈ lines, line.length ≤ 512 ∧
        (IsRuleLine line → Accepted (stripped (trim line)))) ∧
      total = ruleCount + (lines.filter fun line => IsRuleLine line).length ∧ total ≤ 128 := by
  induction lines generalizing lineNumber ruleCount with
  | nil =>
    rw [countRules]
    simp only [List.not_mem_nil, false_implies, implies_true, true_and, List.filter_nil,
      List.length_nil, Nat.add_zero]
    constructor
    · intro h
      obtain rfl := Except.ok.inj h
      exact ⟨rfl, hcount⟩
    · rintro ⟨rfl, -⟩
      rfl
  | cons line lines ih =>
    have hcons : (∀ l ∈ line :: lines, l.length ≤ 512 ∧
        (IsRuleLine l → Accepted (stripped (trim l)))) ↔
          (line.length ≤ 512 ∧ (IsRuleLine line → Accepted (stripped (trim line)))) ∧
            ∀ l ∈ lines, l.length ≤ 512 ∧ (IsRuleLine l → Accepted (stripped (trim l))) :=
      List.forall_mem_cons
    rw [countRules, hcons]
    -- only a line that holds a rule counts
    by_cases hline : IsRuleLine line
    · simp only [List.filter_cons]
      rw [if_pos (decide_eq_true hline), List.length_cons]
      constructor
      · intro h
        obtain ⟨holdsRule, hvalidate, h⟩ := ok_of_bind h
        obtain ⟨hlength, rfl, haccepted⟩ := validateLine_iff.mp hvalidate
        simp only [hline, decide_true, if_true, unless_eq_ok, not_lt] at h
        obtain ⟨hrest, htotal, hle⟩ := (ih h.1).mp h.2
        exact ⟨⟨⟨hlength, haccepted⟩, hrest⟩, by omega, hle⟩
      · rintro ⟨⟨⟨hlength, haccepted⟩, hrest⟩, htotal, hle⟩
        rw [validateLine_iff.mpr ⟨hlength, rfl, haccepted⟩]
        have hroom : ruleCount + 1 ≤ 128 := by omega
        show (if decide (IsRuleLine line) = true then _ else _) = _
        simp only [hline, decide_true, if_true, unless_eq_ok, not_lt]
        exact ⟨hroom, (ih hroom).mpr ⟨hrest, by omega, hle⟩⟩
    · simp only [List.filter_cons]
      rw [if_neg (ne_true_of_eq_false (decide_eq_false hline))]
      constructor
      · intro h
        obtain ⟨holdsRule, hvalidate, h⟩ := ok_of_bind h
        obtain ⟨hlength, rfl, haccepted⟩ := validateLine_iff.mp hvalidate
        simp only [hline, decide_false, Bool.false_eq_true, if_false] at h
        obtain ⟨hrest, htotal⟩ := (ih hcount).mp h
        exact ⟨⟨⟨hlength, haccepted⟩, hrest⟩, htotal⟩
      · rintro ⟨⟨⟨hlength, haccepted⟩, hrest⟩, htotal⟩
        rw [validateLine_iff.mpr ⟨hlength, rfl, haccepted⟩]
        show (if decide (IsRuleLine line) = true then _ else _) = _
        simp only [hline, decide_false, Bool.false_eq_true, if_false]
        exact (ih hcount).mpr ⟨hrest, htotal⟩

/-- **What `Validate` accepts.**  Line by line, and for the pattern of each line in the words of the
documentation. -/
theorem validate_iff {text : Bytes} :
    validate text = .ok () ↔ text.length ≤ 16 * 1024 ∧ 0 ∉ text ∧
      (∀ line ∈ textLines text, line.length ≤ 512 ∧
        (IsRuleLine line → Accepted (stripped (trim line)))) ∧
      (ruleLines text).length ≤ 128 ∧ (text = [] ∨ ruleLines text ≠ []) := by
  rw [validate, unless_eq_ok, unless_eq_ok, not_lt]
  refine and_congr_right fun _ => and_congr_right fun _ => ?_
  constructor
  · intro h
    obtain ⟨total, hcount, h⟩ := ok_of_bind h
    obtain ⟨hlines, rfl, htotal⟩ := (countRules_iff (Nat.zero_le _)).mp hcount
    rw [Nat.zero_add] at h htotal
    refine ⟨hlines, htotal, ?_⟩
    by_contra hbad
    rw [not_or, not_not] at hbad
    have hnone : (List.filter (fun line => decide (IsRuleLine line)) (textLines text)).length = 0 :=
      congrArg List.length hbad.2
    rw [if_pos ⟨hnone, hbad.1⟩] at h
    cases h
  · rintro ⟨hlines, htotal, hsome⟩
    have hcount := (@countRules_iff 1 0 _ (textLines text) (Nat.zero_le 128)).mpr
      ⟨hlines, rfl, (Nat.zero_add _).symm ▸ htotal⟩
    rw [hcount]
    show (if _ then _ else _) = _
    rw [if_neg]
    · rfl
    · rintro ⟨hzero, hne⟩
      rw [Nat.zero_add, List.length_eq_zero_iff] at hzero
      exact hsome.elim hne fun h => h hzero

/-! ## The two readings of a line -/

theorem ControlInClass.cons {c : UInt8} {rest : Bytes} (h : ControlInClass rest) :
    ControlInClass (c :: rest) := by
  obtain ⟨before, body, after, rfl, hbody, hcontrol⟩ := h
  exact ⟨c :: before, body, after, rfl, hbody, hcontrol⟩

theorem ControlInClass.append {before rest : Bytes} (h : ControlInClass rest) :
    ControlInClass (before ++ rest) := by
  induction before with
  | nil => exact h
  | cons c before ih => exact ih.cons

/-- With no control character in a class, the loop over the bytes finds them all. -/
theorem checked_iff {pattern : Bytes} (hclass : ¬ControlInClass pattern) :
    Checked pattern ↔ (∀ c ∈ pattern, 32 ≤ c.toNat) ∧ WellFormedClasses pattern := by
  constructor
  · intro h
    induction h with
    | nil => exact ⟨by simp, .nil⟩
    | byte hcontrol hopen hclose _ ih =>
      obtain ⟨hrest, hwf⟩ := ih fun h => hclass h.cons
      exact ⟨List.forall_mem_cons.mpr ⟨hcontrol, hrest⟩, .byte hopen hclose hwf⟩
    | @group body rest hbody hne hbang _ ih =>
      have hgroup : ∀ c ∈ body, 32 ≤ c.toNat := fun c hc => by
        by_contra hcontrol
        exact hclass ⟨[], body, rest, rfl, hbody, c, hc, not_le.mp hcontrol⟩
      obtain ⟨hrest, hwf⟩ := ih fun h => hclass
        (ControlInClass.cons (ControlInClass.append (ControlInClass.cons h)))
      refine ⟨List.forall_mem_cons.mpr ⟨by decide, fun c hc => ?_⟩, .group hbody hne hbang hwf⟩
      rcases List.mem_append.mp hc with hc | hc
      · exact hgroup c hc
      · rcases List.mem_cons.mp hc with rfl | hc
        · decide
        · exact hrest c hc
  · rintro ⟨hcontrol, hwf⟩
    clear hclass
    induction hwf with
    | nil => exact .nil
    | byte hopen hclose _ ih =>
      obtain ⟨hc, hrest⟩ := List.forall_mem_cons.mp hcontrol
      exact .byte hc hopen hclose (ih hrest)
    | group hbody hne hbang _ ih =>
      exact .group hbody hne hbang (ih fun c hc => hcontrol c (by simp [hc]))

theorem accepted_iff {pattern : Bytes} (hclass : ¬ControlInClass pattern) :
    Accepted pattern ↔ WellFormedPattern pattern := by
  constructor
  · rintro ⟨hnames, hescape, hchecked⟩
    obtain ⟨hcontrol, hwf⟩ := (checked_iff hclass).mp hchecked
    exact ⟨hnames, hescape, hcontrol, hwf⟩
  · rintro ⟨hnames, hescape, hcontrol, hwf⟩
    exact ⟨hnames, hescape, (checked_iff hclass).mpr ⟨hcontrol, hwf⟩⟩

/-- Unless a `!` was escaped, `Validate` looks at the pattern `Load` stores. -/
theorem stripped_eq_pattern {body : Bytes} (h : ¬ascii "\\!" <+: body) :
    stripped body = (bodyRule body).pattern := by
  rcases body_cases body with ⟨rest, rfl⟩ | ⟨rest, rfl⟩ | ⟨rest, rfl⟩ | ⟨hhead, hbang, hhash⟩
  · exact absurd ⟨rest, rfl⟩ h
  · rw [stripped, bodyRule, unmark_hash, startsEscaped_hash]
    rfl
  · rw [stripped, bodyRule, unmark_negated, startsEscaped_negated]
    rfl
  · rw [stripped, bodyRule, unmark_plain hhead hbang hhash, startsEscaped_plain hbang hhash,
      if_neg Bool.false_ne_true]
    have hfront : dropFront '!'.toUInt8 body = body := if_neg hhead
    rw [hfront]
    rfl

theorem dropBack_cons {c : UInt8} (hc : c ≠ slash) (rest : Bytes) :
    dropBack slash (c :: rest) = c :: dropBack slash rest := by
  cases rest with
  | nil => simp [dropBack, hc]
  | cons b rest =>
    rw [dropBack, dropBack, List.getLast?_cons_cons]
    split <;> rfl

/-- One more byte at the front of the first component. -/
theorem accepted_bang_iff {pattern : Bytes} :
    Accepted ('!'.toUInt8 :: pattern) ↔
      (∀ c ∈ (components pattern).tail, c ≠ [] ∧ c ≠ [dot] ∧ c ≠ [dot, dot]) ∧
        '\\'.toUInt8 ∉ pattern ∧ Checked pattern := by
  obtain ⟨first, others, hcomponents⟩ := components_eq_cons pattern
  have hbang : components ('!'.toUInt8 :: pattern) = ('!'.toUInt8 :: first) :: others := by
    rw [components_cons, if_neg (by decide), hcomponents, List.modifyHead_cons]
  rw [hcomponents, List.tail_cons]
  constructor
  · rintro ⟨hnames, hescape, hchecked⟩
    rw [hbang] at hnames
    exact ⟨(List.forall_mem_cons.mp hnames).2, fun h => hescape (List.mem_cons_of_mem _ h),
      ((checked_byte_iff (by decide)).mp hchecked).2.2⟩
  · rintro ⟨hnames, hescape, hchecked⟩
    refine ⟨?_, ?_, (checked_byte_iff (by decide)).mpr ⟨by decide, by decide, hchecked⟩⟩
    · have hdot : '!'.toUInt8 ≠ dot := by decide
      rw [hbang]
      exact List.forall_mem_cons.mpr ⟨⟨List.cons_ne_nil _ _, fun h => hdot (List.cons.inj h).1,
        fun h => hdot (List.cons.inj h).1⟩, hnames⟩
    · rw [List.mem_cons, not_or]
      exact ⟨by decide, hescape⟩

/-- An escaped `!` is the first byte of the pattern. -/
theorem pattern_bang (rest : Bytes) :
    (bodyRule ('\\'.toUInt8 :: '!'.toUInt8 :: rest)).pattern =
      '!'.toUInt8 :: dropBack slash rest := by
  rw [bodyRule, unmark_bang, ← dropBack_cons (by decide)]
  rfl

/-- After an escaped `!`, `Validate` looks at the pattern without that `!` and without a separator
right after it. -/
theorem accepted_stripped_bang {rest : Bytes}
    (h : ¬Escapes ('\\'.toUInt8 :: '!'.toUInt8 :: rest)
      (bodyRule ('\\'.toUInt8 :: '!'.toUInt8 :: rest)).pattern) :
    Accepted (stripped ('\\'.toUInt8 :: '!'.toUInt8 :: rest)) ↔
      Accepted (bodyRule ('\\'.toUInt8 :: '!'.toUInt8 :: rest)).pattern := by
  have hbang : ascii "\\!" <+: '\\'.toUInt8 :: '!'.toUInt8 :: rest := ⟨rest, rfl⟩
  have hstripped : stripped ('\\'.toUInt8 :: '!'.toUInt8 :: rest) =
      dropBack slash (dropFront slash rest) := by
    rw [stripped, startsEscaped_bang]
    rfl
  rw [pattern_bang] at h
  rw [pattern_bang, hstripped, accepted_bang_iff]
  cases rest with
  | nil => exact absurd ⟨hbang, .inl rfl⟩ h
  | cons c rest =>
    -- a slash after the mark makes `!` a component of its own; else it begins the first one
    by_cases hc : c = slash
    · subst hc
      cases rest with
      | nil => exact absurd ⟨hbang, .inl rfl⟩ h
      | cons b rest =>
        have hback : dropBack slash (slash :: b :: rest) = slash :: dropBack slash (b :: rest) := by
          rw [dropBack, dropBack, List.getLast?_cons_cons]
          split <;> rfl
        have hfront : dropFront slash (slash :: b :: rest) = b :: rest := rfl
        rw [hback, hfront, components_cons, if_pos rfl, List.tail_cons,
          checked_byte_iff (by decide)]
        constructor
        · rintro ⟨hnames, hescape, hchecked⟩
          refine ⟨hnames, ?_, by decide, by decide, hchecked⟩
          rw [List.mem_cons, not_or]
          exact ⟨by decide, hescape⟩
        · rintro ⟨hnames, hescape, -, -, hchecked⟩
          exact ⟨hnames, fun hmem => hescape (List.mem_cons_of_mem _ hmem), hchecked⟩
    · have hfront : dropFront slash (c :: rest) = c :: rest :=
        if_neg fun heq => hc (Option.some.inj heq)
      rw [hfront]
      obtain ⟨first, others, hcomponents⟩ :=
        components_eq_cons (dropBack slash (c :: rest))
      have hfirst : first ≠ [] := by
        rintro rfl
        rw [dropBack_cons hc] at hcomponents
        exact hc (eq_slash_of_components hcomponents)
      have hhead : (components ('!'.toUInt8 :: dropBack slash (c :: rest))).head? =
          some ('!'.toUInt8 :: first) := by
        rw [components_cons, if_neg (by decide), hcomponents]
        rfl
      rw [Escapes, hhead, Option.some.injEq, Option.some.injEq, and_iff_right hbang, not_or,
        not_or] at h
      rw [hcomponents, List.tail_cons]
      constructor
      · rintro ⟨hnames, hescape, hchecked⟩
        rw [hcomponents] at hnames
        exact ⟨(List.forall_mem_cons.mp hnames).2, hescape, hchecked⟩
      · rintro ⟨hnames, hescape, hchecked⟩
        refine ⟨?_, hescape, hchecked⟩
        rw [hcomponents]
        refine List.forall_mem_cons.mpr ⟨⟨hfirst, ?_, ?_⟩, hnames⟩
        · rintro rfl
          exact h.2.1 rfl
        · rintro rfl
          exact h.2.2 rfl

/-- Where neither slip shows, `Validate` judges the pattern `Load` stores. -/
theorem accepted_stripped_iff {body : Bytes} (hescapes : ¬Escapes body (bodyRule body).pattern)
    (hclass : ¬ControlInClass (bodyRule body).pattern) :
    Accepted (stripped body) ↔ WellFormedPattern (bodyRule body).pattern := by
  rw [← accepted_iff hclass]
  by_cases hbang : ascii "\\!" <+: body
  · obtain ⟨rest, rfl⟩ := hbang
    exact accepted_stripped_bang hescapes
  · rw [stripped_eq_pattern hbang]

/-- What `Validate` accepts, `Load` finds a rule in. -/
theorem pattern_ne_nil {body : Bytes} (h : Accepted (stripped body)) :
    (bodyRule body).pattern ≠ [] := by
  by_cases hbang : ascii "\\!" <+: body
  · obtain ⟨rest, rfl⟩ := hbang
    exact (pattern_bang rest).trans_ne (List.cons_ne_nil _ _)
  · rw [← stripped_eq_pattern hbang]
    intro hnil
    have hnames := h.components
    rw [hnil] at hnames
    exact (hnames [] List.mem_cons_self).1 rfl

/-! ## The rules of a text -/

/-- The rules `Load` stores, line by line. -/
theorem filterMap_parseLine {lines : List Bytes}
    (h : ∀ line ∈ lines, IsRuleLine line → Accepted (stripped (trim line))) :
    lines.filterMap parseLine =
      (lines.filter fun line => IsRuleLine line).map fun line => bodyRule (trim line) := by
  induction lines with
  | nil => rfl
  | cons line lines ih =>
    obtain ⟨hline, hlines⟩ := List.forall_mem_cons.mp h
    rw [List.filterMap_cons, parseLine_eq, ih hlines]
    simp only [List.filter_cons]
    by_cases hrule : IsRuleLine line
    · rw [if_pos hrule, if_neg (pattern_ne_nil (hline hrule)), if_pos (decide_eq_true hrule),
        List.map_cons]
    · rw [if_neg hrule, if_neg (ne_true_of_eq_false (decide_eq_false hrule))]

theorem load_eq_ok_iff {text : Bytes} {rules : IgnoreRules} :
    load text = .ok rules ↔
      validate text = .ok () ∧ rules.rules = (textLines text).filterMap parseLine := by
  constructor
  · intro h
    obtain ⟨_, hvalidate, h⟩ := ok_of_bind h
    cases h
    exact ⟨hvalidate, rfl⟩
  · rintro ⟨hvalidate, hrules⟩
    rw [load, hvalidate, ← hrules]
    rfl

/-- **`Load` stores the rule each line spells**, in the order of the lines.  Lines that are empty or
comments spell none. -/
theorem load_rules {text : Bytes} {rules : IgnoreRules} (h : load text = .ok rules) :
    List.Forall₂ (fun line rule => Spells (trim line) rule) (ruleLines text) rules.rules := by
  obtain ⟨hvalidate, hrules⟩ := load_eq_ok_iff.mp h
  obtain ⟨-, -, hlines, -⟩ := validate_iff.mp hvalidate
  rw [hrules, filterMap_parseLine fun line hline => (hlines line hline).2]
  refine List.forall₂_map_right_iff.mpr (List.forall₂_same.mpr fun line _ => ?_)
  exact spells_iff.mpr rfl

/-- **`Load` succeeds exactly on the well-formed texts without a null byte**, where no line escapes
a `!` whose pattern would not be one without it and no class lists a control character; and then it
stores the rule each line spells. -/
theorem load_iff_wellFormed (text : Bytes) :
    ((∀ line ∈ ruleLines text, ∀ rule, Spells (trim line) rule →
        ¬Escapes (trim line) rule.pattern ∧ ¬ControlInClass rule.pattern) →
      ((∃ rules, load text = .ok rules) ↔ 0 ∉ text ∧ WellFormed text)) ∧
      ∀ rules, load text = .ok rules →
        List.Forall₂ (fun line rule => Spells (trim line) rule) (ruleLines text) rules.rules := by
  refine ⟨fun hslips => ?_, fun rules => load_rules⟩
  have hload : (∃ rules, load text = .ok rules) ↔ validate text = .ok () := by
    constructor
    · rintro ⟨rules, h⟩
      exact (load_eq_ok_iff.mp h).1
    · intro h
      exact ⟨⟨(textLines text).filterMap parseLine⟩, load_eq_ok_iff.mpr ⟨h, rfl⟩⟩
  have hline : ∀ line ∈ ruleLines text, Accepted (stripped (trim line)) ↔
      ∃ rule, Spells (trim line) rule ∧ WellFormedPattern rule.pattern := by
    intro line hline
    obtain ⟨hescapes, hclass⟩ := hslips line hline _ (spells_iff.mpr rfl)
    rw [accepted_stripped_iff hescapes hclass]
    constructor
    · exact fun h => ⟨_, spells_iff.mpr rfl, h⟩
    · rintro ⟨rule, hspells, h⟩
      rwa [← spells_iff.mp hspells]
  have hmem : ∀ line, line ∈ ruleLines text ↔ line ∈ textLines text ∧ IsRuleLine line := by
    intro line
    rw [ruleLines, List.mem_filter, decide_eq_true_eq]
  rw [hload, validate_iff]
  constructor
  · rintro ⟨hsize, hnull, hlines, hcount, hsome⟩
    refine ⟨hnull, hsize, fun line h => (hlines line h).1, fun line h => ?_, hcount, hsome⟩
    obtain ⟨htext, hrule⟩ := (hmem line).mp h
    exact (hline line h).mp ((hlines line htext).2 hrule)
  · rintro ⟨hnull, hsize, hlines, hpatterns, hcount, hsome⟩
    refine ⟨hsize, hnull, fun line h => ⟨hlines line h, fun hrule => ?_⟩, hcount, hsome⟩
    have hmem' := (hmem line).mpr ⟨h, hrule⟩
    exact (hline line hmem').mpr (hpatterns line hmem')

/-- Two plain lines: `Load` takes them, so they are well formed. -/
theorem wellFormed_logs : WellFormed (ascii "*.log\n!keep") := by
  have hlines : ruleLines (ascii "*.log\n!keep") = [ascii "*.log", ascii "!keep"] := by
    decide +kernel
  refine (((load_iff_wellFormed _).1 fun line hline rule hspells => ?_).mp
    ⟨⟨[⟨ascii "*.log", false, false, false⟩, ⟨ascii "keep", true, false, false⟩]⟩,
      by decide +kernel⟩).2
  rw [spells_iff.mp hspells]
  have hbracket : ∀ pattern : Bytes, '['.toUInt8 ∉ pattern → ¬ControlInClass pattern := by
    rintro _ h ⟨before, body, after, rfl, -⟩
    exact h (by simp)
  rw [hlines, List.mem_cons, List.mem_singleton] at hline
  rcases hline with rfl | rfl
  · exact ⟨fun h => absurd h.1 (by decide +kernel), hbracket _ (by decide +kernel)⟩
  · exact ⟨fun h => absurd h.1 (by decide +kernel), hbracket _ (by decide +kernel)⟩

/-- A comment with a null byte is no rule, and `!` is a pattern; `Load` refuses both texts.  A class
that lists a control character is not well formed, and `Load` takes it. -/
theorem load_refuses_wellFormed :
    (WellFormed (ascii "#\x00\na") ∧
      load (ascii "#\x00\na") = .error (.invalidArgument "ignore rules contain a null byte")) ∧
    (WellFormed (ascii "\\!") ∧
      load (ascii "\\!") = .error (.invalidArgument "ignore rule line 1 has no pattern")) ∧
    ¬WellFormed (ascii "[\x01]") ∧
      load (ascii "[\x01]") = .ok ⟨[⟨ascii "[\x01]", false, false, false⟩]⟩ := by
  have hwf : ∀ c : UInt8, 32 ≤ c.toNat → c ≠ slash → c ≠ dot → c ≠ '\\'.toUInt8 →
      c ≠ '['.toUInt8 → c ≠ ']'.toUInt8 → WellFormedPattern [c] := by
    intro c hcontrol hslash hdot hescape hopen hclose
    refine ⟨?_, by simpa [eq_comm] using hescape, by simpa using hcontrol,
      .byte hopen hclose .nil⟩
    rw [components, List.splitOn_eq_singleton (by simpa [eq_comm] using hslash)]
    simpa using hdot
  refine ⟨⟨⟨by decide +kernel, by decide +kernel, ?_, by decide +kernel, by decide +kernel⟩,
    by decide +kernel⟩, ⟨⟨by decide +kernel, by decide +kernel, ?_, by decide +kernel,
    by decide +kernel⟩, by decide +kernel⟩, fun hwellFormed => ?_, by decide +kernel⟩
  · have hlines : ruleLines (ascii "#\x00\na") = [ascii "a"] := by decide +kernel
    rw [hlines]
    rintro _ (_ | ⟨_, h⟩)
    · exact ⟨⟨ascii "a", false, false, false⟩, spells_iff.mpr (by decide +kernel),
        hwf 97 (by decide) (by decide) (by decide) (by decide) (by decide) (by decide)⟩
    · cases h
  · have hlines : ruleLines (ascii "\\!") = [ascii "\\!"] := by decide +kernel
    rw [hlines]
    rintro _ (_ | ⟨_, h⟩)
    · exact ⟨⟨ascii "!", false, false, false⟩, spells_iff.mpr (by decide +kernel),
        hwf 33 (by decide) (by decide) (by decide) (by decide) (by decide) (by decide)⟩
    · cases h
  · have hlines : ruleLines (ascii "[\x01]") = [ascii "[\x01]"] := by decide +kernel
    obtain ⟨rule, hspells, hpattern⟩ := hwellFormed.patterns (ascii "[\x01]") (by simp [hlines])
    have hone : 1 ∈ rule.pattern := by
      rw [spells_iff.mp hspells]
      decide +kernel
    exact absurd (hpattern.control 1 hone) (by decide)

end IgnoreRules

end VeritasSync
