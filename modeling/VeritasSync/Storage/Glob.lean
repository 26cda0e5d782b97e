import VeritasSync.Storage.IgnoreRules

/-!
# The language of a glob pattern

`GlobMatches` is a backtracking walk over two positions.  Here a pattern is read as a list of
tokens, and every token stands for some words over the bytes.  For all tokens but one these words do
not depend on where in the path the token begins.  The exception is `**/`: it stands for complete
components of the path, so it may only take text where a component begins.  The language of a
pattern is therefore read from the left, with the part of the path that has been read so far.

What is here:

* `Token`, `nextToken`, `tokens` — the reading of a pattern: `**/` before `**` before `*`, and a
  class up to the first `]`;
* `Token.language`, `spelling`, `patternLanguage` — what a token, some tokens and a pattern stand
  for;
* `Token.tails` — what the matcher tries after a token, and `globMatches_cons`, which says that one
  call of the matcher is one token;
* `Token.taken`, `accepted` — what the matcher lets the tokens take, which is a product of
  Mathlib's `Language`s;
* `slipped`, `filled` — `accepted` taken apart along the components of the path;
* `matchesGlob_iff_mem_patternLanguage` — when the matcher decides the language.

The two differ in two corners.  The matcher gives up at the end of the path before it looks at a
single `*`, so a `*` that ends the pattern never stands for the empty run: `a*` does not match `a`.
In front of any other token the early exit is harmless, since that token needs a byte.  And for a
`**/` the matcher goes on after any separator, wherever it stands: `a**/b` matches `axx/b`, although
`xx/` is not a component.  A `**/` at the start of the pattern or behind a separator always stands
where a component begins, and there the matcher is right (`not_mem_slipped_of_placed`).
-/

set_option autoImplicit false

namespace VeritasSync

namespace IgnoreRules

/-! ## Reading a pattern -/

/-- The pieces of a pattern. -/
inductive Token where
  /-- A single `*`. -/
  | star
  /-- A `**` in front of anything but a separator. -/
  | anything
  /-- A `**/`. -/
  | leading
  /-- A `?`. -/
  | any
  /-- `[..]` and `[!..]`; a single byte is the range from itself to itself. -/
  | oneOf (negated : Bool) (ranges : List (UInt8 × UInt8))
  /-- Any other byte. -/
  | literal (c : UInt8)
  deriving DecidableEq

/-- The bytes and ranges a class lists. -/
def classRanges : Bytes → List (UInt8 × UInt8)
  | [] => []
  | [a] => [(a, a)]
  | [a, b] => [(a, a), (b, b)]
  | a :: b :: c :: rest =>
    if b = '-'.toUInt8 then (a, c) :: classRanges rest else (a, a) :: classRanges (b :: c :: rest)

/-- The class that follows a `[`, and what follows the class.  A class without its `]` lists
nothing. -/
def classToken (body : Bytes) : Token × Bytes :=
  match body.dropWhile fun c => c ≠ ']'.toUInt8 with
  | [] => (.oneOf false [], [])
  | _ :: next =>
    match body.takeWhile fun c => c ≠ ']'.toUInt8 with
    | [] => (.oneOf false [], next)
    | c :: rest =>
      if c = '!'.toUInt8 then (.oneOf true (classRanges rest), next)
      else (.oneOf false (classRanges (c :: rest)), next)

/-- The first token of a pattern, and what follows it. -/
def nextToken (p : UInt8) (pattern : Bytes) : Token × Bytes :=
  if p = '*'.toUInt8 ∧ pattern.head? = some '*'.toUInt8 ∧ pattern[1]? = some slash then
    (.leading, pattern.drop 2)
  else if p = '*'.toUInt8 ∧ pattern.head? = some '*'.toUInt8 then (.anything, pattern.drop 1)
  else if p = '*'.toUInt8 then (.star, pattern)
  else if p = '?'.toUInt8 then (.any, pattern)
  else if p = '['.toUInt8 then classToken pattern
  else (.literal p, pattern)

/-- The tokens of a pattern; each takes at least one byte of it. -/
def tokens : Nat → Bytes → List Token
  | _, [] => []
  | 0, _ :: _ => []
  | fuel + 1, p :: pattern => (nextToken p pattern).1 :: tokens fuel (nextToken p pattern).2

/-! ## What a pattern stands for -/

/-- A component of a path, with the separator after it. -/
def component : Language UInt8 :=
  {w | ∃ name : Bytes, name ≠ [] ∧ slash ∉ name ∧ w = name ++ [slash]}

/-- What has been read of a path ends inside one of its components: it does not end in a separator,
and it is not empty. -/
def Inside (before : Bytes) : Prop := ∃ c, before.getLast? = some c ∧ c ≠ slash

/-- One byte with a property. -/
def oneByte (p : UInt8 → Prop) : Language UInt8 := {w | ∃ c, p c ∧ w = [c]}

/-- The byte is one of the bytes and ranges a class lists. -/
def Listed (ranges : List (UInt8 × UInt8)) (c : UInt8) : Prop :=
  ∃ range ∈ ranges, range.1 ≤ c ∧ c ≤ range.2

/-- The words a token stands for, behind the part of the path that has been read.  Only `**/` looks
at that part: inside a component no complete component begins. -/
def Token.language (before : Bytes) : Token → Language UInt8
  | .star => {w | slash ∉ w}
  | .anything => ⊤
  | .leading => {w | w = [] ∨ ¬Inside before ∧ w ∈ KStar.kstar component}
  | .any => oneByte fun c => c ≠ slash
  | .oneOf false ranges => oneByte fun c => c ≠ slash ∧ Listed ranges c
  | .oneOf true ranges => oneByte fun c => c ≠ slash ∧ ¬Listed ranges c
  | .literal p => oneByte fun c => p = c

/-- The words a list of tokens stands for, behind the part of the path that has been read. -/
def spelling (before : Bytes) : List Token → Language UInt8
  | [] => 1
  | t :: ts =>
    {path | ∃ w ∈ t.language before, ∃ rest ∈ spelling (before ++ w) ts, w ++ rest = path}

/-- The words a pattern stands for. -/
def patternLanguage (pattern : Bytes) : Language UInt8 :=
  spelling [] (tokens pattern.length pattern)

/-- A path without an empty component: it is not empty, and it has no leading, trailing or doubled
separator. -/
def Unbroken (path : Path) : Prop := [] ∉ components path

instance (path : Path) : Decidable (Unbroken path) := inferInstanceAs (Decidable ([] ∉ _))

/-- Every range of a class is a single byte, or a range between ASCII characters. -/
def Token.AsciiRanges : Token → Prop
  | .oneOf _ ranges => ∀ range ∈ ranges, range.1 = range.2 ∨ range.1 < 128 ∧ range.2 < 128
  | _ => True

/-- The class ranges of a pattern are ASCII. -/
def AsciiRanges (pattern : Bytes) : Prop := ∀ t ∈ tokens pattern.length pattern, t.AsciiRanges

instance : (t : Token) → Decidable t.AsciiRanges
  | .oneOf _ ranges =>
    inferInstanceAs
      (Decidable (∀ range ∈ ranges, range.1 = range.2 ∨ range.1 < 128 ∧ range.2 < 128))
  | .star | .anything | .leading | .any | .literal _ => isTrue trivial

instance (pattern : Bytes) : Decidable (AsciiRanges pattern) :=
  inferInstanceAs (Decidable (∀ t ∈ tokens pattern.length pattern, t.AsciiRanges))

theorem nil_notMem_oneByte {p : UInt8 → Prop} : [] ∉ oneByte p := by
  rintro ⟨c, -, h⟩
  cases h

/-- What remains after one byte. -/
theorem exists_oneByte_append {p : UInt8 → Prop} {c : UInt8} {path rest : Bytes} :
    (∃ w ∈ oneByte p, w ++ rest = c :: path) ↔ p c ∧ rest = path := by
  constructor
  · rintro ⟨_, ⟨d, hd, rfl⟩, h⟩
    obtain ⟨rfl, rfl⟩ := List.cons.inj h
    exact ⟨hd, rfl⟩
  · rintro ⟨hc, rfl⟩
    exact ⟨[c], ⟨c, hc, rfl⟩, rfl⟩

/-! ## What the matcher takes

The matcher does not know where a component begins.  For a `**/` it goes on behind any separator, so
what it lets the token take is nothing, or any text that ends in a separator.  For the other tokens
it takes the words they stand for. -/

/-- The words the matcher lets a token take. -/
def Token.taken : Token → Language UInt8
  | .leading => {w | w = [] ∨ ∃ u, w = u ++ [slash]}
  | t => t.language []

/-- A non-empty run of bytes other than a separator. -/
def nonEmptyRun : Language UInt8 := {w | w ≠ [] ∧ slash ∉ w}

/-- The words the matcher lets some tokens take: a single `*` at their end is not empty. -/
def accepted : List Token → Language UInt8
  | [] => 1
  | [.star] => nonEmptyRun
  | t :: ts => t.taken * accepted ts

theorem accepted_cons {t : Token} {ts : List Token} (h : t ≠ .star ∨ ts ≠ []) :
    accepted (t :: ts) = t.taken * accepted ts := by
  cases ts with
  | nil =>
    cases t with
    | star => simp at h
    | _ => rfl
  | cons u ts => cases t <;> rfl

theorem taken_any : Token.any.taken = oneByte fun c => c ≠ slash := rfl

theorem taken_oneOf (ranges : List (UInt8 × UInt8)) :
    (Token.oneOf false ranges).taken = oneByte fun c => c ≠ slash ∧ Listed ranges c := rfl

theorem taken_noneOf (ranges : List (UInt8 × UInt8)) :
    (Token.oneOf true ranges).taken = oneByte fun c => c ≠ slash ∧ ¬Listed ranges c := rfl

theorem taken_literal (p : UInt8) : (Token.literal p).taken = oneByte fun c => p = c := rfl

theorem mem_nonEmptyRun {w : Bytes} : w ∈ nonEmptyRun ↔ w ≠ [] ∧ slash ∉ w := Iff.rfl

theorem mem_star {w : Bytes} : w ∈ Token.star.taken ↔ slash ∉ w := Iff.rfl

theorem mem_anything (w : Bytes) : w ∈ Token.anything.taken := Set.mem_univ w

theorem mem_leading {w : Bytes} : w ∈ Token.leading.taken ↔ w = [] ∨ ∃ u, w = u ++ [slash] :=
  Iff.rfl

/-- Only `**/` takes other words than it stands for. -/
theorem Token.taken_eq {t : Token} (h : t ≠ .leading) (before : Bytes) :
    t.taken = t.language before := by
  cases t with
  | leading => exact absurd rfl h
  | oneOf negated ranges => cases negated <;> rfl
  | _ => rfl

/-! ## What the matcher tries after a token -/

/-- What may remain of the path after a token, in the order the matcher tries it. -/
def Token.tails : Token → Bytes → List Bytes
  | .leading, path => path :: afterSlashes path
  | .anything, path => path.tails
  | _, [] => []
  | .star, c :: rest => starTails (c :: rest)
  | .any, c :: rest => if c ≠ slash then [rest] else []
  | .oneOf negated ranges, c :: rest =>
    let listed := ranges.any fun range => signed range.1 ≤ signed c && signed c ≤ signed range.2
    if c ≠ slash ∧ listed ≠ negated then [rest] else []
  | .literal p, c :: rest => if p = c then [rest] else []

theorem mem_starTails {path rest : Bytes} :
    rest ∈ starTails path ↔ ∃ w, slash ∉ w ∧ w ++ rest = path := by
  induction path with
  | nil =>
    rw [starTails, List.mem_singleton]
    constructor
    · rintro rfl
      exact ⟨[], List.not_mem_nil, rfl⟩
    · rintro ⟨w, -, h⟩
      exact (List.append_eq_nil_iff.mp h).2
  | cons c path ih =>
    rw [starTails, List.mem_cons]
    constructor
    · rintro (rfl | h)
      · exact ⟨[], List.not_mem_nil, rfl⟩
      · split at h
        · cases h
        · rename_i hc
          obtain ⟨w, hw, rfl⟩ := ih.mp h
          refine ⟨c :: w, ?_, rfl⟩
          exact fun h => (List.mem_cons.mp h).elim (fun h => hc h.symm) hw
    · rintro ⟨w, hw, h⟩
      cases w with
      | nil => exact .inl h
      | cons d w =>
        obtain ⟨rfl, rfl⟩ := List.cons.inj h
        have hd : d ≠ slash := fun heq => hw (heq ▸ List.mem_cons_self)
        rw [if_neg hd]
        exact .inr (ih.mpr ⟨w, fun h => hw (List.mem_cons_of_mem _ h), rfl⟩)

theorem mem_afterSlashes {path rest : Bytes} :
    rest ∈ afterSlashes path ↔ ∃ w, w ++ slash :: rest = path := by
  induction path with
  | nil => simp [afterSlashes]
  | cons c path ih =>
    have hcons : (∃ w, w ++ slash :: rest = c :: path) ↔
        (c = slash ∧ rest = path) ∨ ∃ w, w ++ slash :: rest = path := by
      constructor
      · rintro ⟨w, h⟩
        cases w with
        | nil =>
          obtain ⟨rfl, rfl⟩ := List.cons.inj h
          exact .inl ⟨rfl, rfl⟩
        | cons d w => exact .inr ⟨w, (List.cons.inj h).2⟩
      · rintro (⟨rfl, rfl⟩ | ⟨w, rfl⟩)
        · exact ⟨[], rfl⟩
        · exact ⟨c :: w, rfl⟩
    rw [hcons, afterSlashes]
    split
    · rename_i hc
      rw [List.mem_cons, ih]
      simp [hc]
    · rename_i hc
      rw [ih]
      simp [hc]

/-- `char` comparison between ASCII characters and any byte is comparison of the bytes. -/
theorem signed_le_signed {a c v : UInt8} (h : a = c ∨ a < 128 ∧ c < 128) :
    (signed a ≤ signed v ∧ signed v ≤ signed c) ↔ a ≤ v ∧ v ≤ c := by
  have hbyte : ∀ x : UInt8, x < 128 ↔ x.toNat < 128 := fun x => UInt8.lt_iff_toNat_lt
  simp only [UInt8.le_iff_toNat_le, signed]
  rcases h with rfl | ⟨ha, hc⟩
  · have := a.toNat_lt
    have := v.toNat_lt
    split <;> split <;> omega
  · rw [hbyte] at ha hc
    have := v.toNat_lt
    split <;> omega

/-- The loop of `MatchCharacterClass` finds the byte when the class lists it. -/
theorem any_signed_iff {ranges : List (UInt8 × UInt8)} {c : UInt8}
    (hascii : ∀ range ∈ ranges, range.1 = range.2 ∨ range.1 < 128 ∧ range.2 < 128) :
    (ranges.any fun range => signed range.1 ≤ signed c && signed c ≤ signed range.2) = true ↔
      Listed ranges c := by
  rw [List.any_eq_true]
  refine exists_congr fun range => and_congr_right fun hrange => ?_
  rw [Bool.and_eq_true, decide_eq_true_eq, decide_eq_true_eq]
  exact signed_le_signed (hascii range hrange)

/-- **What remains after a token** is what follows one of its words.  A single `*` asks for a path
that is not used up. -/
theorem Token.mem_tails {t : Token} {path rest : Bytes} (hascii : t.AsciiRanges) :
    rest ∈ t.tails path ↔ (t = .star → path ≠ []) ∧ ∃ w ∈ t.taken, w ++ rest = path := by
  cases t with
  | star =>
    cases path with
    | nil => simp [Token.tails]
    | cons c path => simp [Token.tails, mem_starTails, mem_star]
  | anything => simp [Token.tails, mem_anything, List.mem_tails, List.IsSuffix]
  | leading =>
    simp only [Token.tails, List.mem_cons, mem_afterSlashes, mem_leading, reduceCtorEq,
      false_implies, true_and]
    constructor
    · rintro (rfl | ⟨w, rfl⟩)
      · exact ⟨[], .inl rfl, rfl⟩
      · exact ⟨w ++ [slash], .inr ⟨w, rfl⟩, by simp⟩
    · rintro ⟨w, rfl | ⟨u, rfl⟩, rfl⟩
      · exact .inl rfl
      · exact .inr ⟨u, by simp⟩
  | any =>
    cases path with
    | nil => simp [Token.tails, taken_any, nil_notMem_oneByte]
    | cons c path => simp [Token.tails, taken_any, exists_oneByte_append]
  | oneOf negated ranges =>
    cases path with
    | nil => cases negated <;> simp [Token.tails, taken_oneOf, taken_noneOf, nil_notMem_oneByte]
    | cons c path =>
      have hlisted := any_signed_iff (c := c) hascii
      cases negated <;>
        simp [Token.tails, taken_oneOf, taken_noneOf, exists_oneByte_append, ← hlisted]
  | literal p =>
    cases path with
    | nil => simp [Token.tails, taken_literal, nil_notMem_oneByte]
    | cons c path => simp [Token.tails, taken_literal, exists_oneByte_append]

/-! ## The matcher, token by token -/

/-- A class, in the words of the matcher. -/
theorem classContains_eq_any (c : UInt8) (body : Bytes) :
    classContains c body =
      (classRanges body).any fun range =>
        signed range.1 ≤ signed c && signed c ≤ signed range.2 := by
  have hsingle : ∀ a : UInt8,
      (c == a) = (decide (signed a ≤ signed c) && decide (signed c ≤ signed a)) := by
    intro a
    have := @signed_le_signed a a c (.inl rfl)
    rw [Bool.eq_iff_iff, beq_iff_eq, Bool.and_eq_true, decide_eq_true_eq, decide_eq_true_eq, this]
    exact ⟨fun h => ⟨h ▸ le_refl _, h ▸ le_refl _⟩, fun h => le_antisymm h.2 h.1⟩
  fun_induction classContains c body with
  | case1 => rfl
  | case2 a => simp [classRanges, hsingle]
  | case3 a b => simp [classRanges, hsingle]
  | case4 a d rest ih => simp [classRanges, ih]
  | case5 a b d rest hdash ih => simp [classRanges, hdash, ih, hsingle]

/-- `MatchCharacterClass` reads the class `classToken` reads. -/
theorem matchCharacterClass_eq (body : Bytes) (c : UInt8) :
    (matchCharacterClass body c = none ∧ (classToken body).1 = .oneOf false []) ∨
      ∃ negated ranges, (classToken body).1 = .oneOf negated ranges ∧
        matchCharacterClass body c =
          some ((ranges.any fun range => signed range.1 ≤ signed c && signed c ≤ signed range.2)
            ^^ negated, (classToken body).2) := by
  rw [matchCharacterClass, classToken]
  cases body.dropWhile fun c => decide (c ≠ ']'.toUInt8) with
  | nil => exact .inl ⟨rfl, rfl⟩
  | cons bracket next =>
    cases body.takeWhile fun c => decide (c ≠ ']'.toUInt8) with
    | nil => exact .inr ⟨false, [], rfl, rfl⟩
    | cons first rest =>
      simp only
      split
      · exact .inr ⟨true, _, rfl, by rw [classContains_eq_any, Bool.xor_true]⟩
      · exact .inr ⟨false, _, rfl, by rw [classContains_eq_any, Bool.xor_false]⟩

/-- **One call of the matcher is one token.** -/
theorem globMatches_cons (fuel : Nat) (p : UInt8) (pattern path : Bytes) :
    globMatches (fuel + 1) (p :: pattern) path =
      ((nextToken p pattern).1.tails path).any (globMatches fuel (nextToken p pattern).2) := by
  rw [globMatches.eq_def, nextToken]
  simp only
  by_cases hleading :
      p = '*'.toUInt8 ∧ pattern.head? = some '*'.toUInt8 ∧ pattern[1]? = some slash
  · rw [if_pos hleading, if_pos hleading]
    rfl
  rw [if_neg hleading, if_neg hleading]
  by_cases hanything : p = '*'.toUInt8 ∧ pattern.head? = some '*'.toUInt8
  · rw [if_pos hanything, if_pos hanything]
    rfl
  rw [if_neg hanything, if_neg hanything]
  cases path with
  | nil =>
    -- every other token needs a byte of the path
    have hclass : (classToken pattern).1.tails [] = [] := by
      rcases matchCharacterClass_eq pattern 0 with ⟨-, h⟩ | ⟨negated, ranges, h, -⟩
      all_goals rw [h]; rfl
    simp only
    split
    · rfl
    · split
      · rfl
      · split
        · rw [hclass, List.any_nil]
        · rfl
  | cons c rest =>
    simp only
    by_cases hstar : p = '*'.toUInt8
    · rw [if_pos hstar, if_pos hstar]
      rfl
    rw [if_neg hstar, if_neg hstar]
    by_cases hany : p = '?'.toUInt8
    · rw [if_pos hany, if_pos hany]
      by_cases hc : c = slash <;> simp [Token.tails, hc]
    rw [if_neg hany, if_neg hany]
    by_cases hclass : p = '['.toUInt8
    · rw [if_pos hclass, if_pos hclass]
      rcases matchCharacterClass_eq pattern c with ⟨hm, h⟩ | ⟨negated, ranges, h, hm⟩
      · rw [hm, h]
        simp [Token.tails]
      · rw [hm, h]
        simp only [Token.tails]
        generalize ranges.any _ = listed
        by_cases hc : c = slash <;> cases listed <;> cases negated <;> simp [hc]
    · rw [if_neg hclass, if_neg hclass]
      by_cases hc : p = c <;> simp [Token.tails, hc]

/-- The next token takes at least the byte it starts with. -/
theorem length_nextToken (p : UInt8) (pattern : Bytes) :
    (nextToken p pattern).2.length ≤ pattern.length := by
  have hclass : (classToken pattern).2.length ≤ pattern.length := by
    rw [classToken]
    cases hdrop : pattern.dropWhile fun c => decide (c ≠ ']'.toUInt8) with
    | nil => exact Nat.zero_le _
    | cons bracket next =>
      have hnext : next.length ≤ pattern.length := by
        have := (List.dropWhile_suffix (l := pattern) fun c => decide (c ≠ ']'.toUInt8)).length_le
        rw [hdrop, List.length_cons] at this
        exact Nat.le_of_succ_le this
      simp only
      split
      · exact hnext
      · split <;> exact hnext
  rw [nextToken]
  split
  · simp
  · split
    · simp
    · split
      · exact le_rfl
      · split
        · exact le_rfl
        · split
          · exact hclass
          · exact le_rfl

/-- What the matcher accepts: a single `*` needs a path that is not used up. -/
def matched : List Token → Language UInt8
  | [] => 1
  | t :: ts => {path | (t = .star → path ≠ []) ∧ path ∈ t.taken * matched ts}

theorem mem_matched_cons {t : Token} {ts : List Token} {path : Bytes} :
    path ∈ matched (t :: ts) ↔ (t = .star → path ≠ []) ∧ path ∈ t.taken * matched ts :=
  Iff.rfl

/-- The matcher, on any pattern and with enough fuel for it. -/
theorem globMatches_iff_mem_matched {fuel : Nat} {pattern path : Bytes}
    (hlength : pattern.length ≤ fuel) (hascii : ∀ t ∈ tokens fuel pattern, t.AsciiRanges) :
    globMatches fuel pattern path = true ↔ path ∈ matched (tokens fuel pattern) := by
  induction fuel generalizing pattern path with
  | zero =>
    obtain rfl := List.length_eq_zero_iff.mp (Nat.le_zero.mp hlength)
    rw [globMatches, tokens, decide_eq_true_eq, matched, Language.mem_one]
  | succ fuel ih =>
    cases pattern with
    | nil => rw [globMatches, tokens, decide_eq_true_eq, matched, Language.mem_one]
    | cons p pattern =>
      rw [tokens] at hascii ⊢
      obtain ⟨hhead, htail⟩ := List.forall_mem_cons.mp hascii
      have hnext : (nextToken p pattern).2.length ≤ fuel :=
        (length_nextToken p pattern).trans (Nat.le_of_succ_le_succ hlength)
      rw [globMatches_cons, List.any_eq_true, mem_matched_cons, Language.mem_mul]
      constructor
      · rintro ⟨rest, hrest, hmatch⟩
        obtain ⟨hstar, w, hw, rfl⟩ := (Token.mem_tails hhead).mp hrest
        exact ⟨hstar, w, hw, rest, (ih hnext htail).mp hmatch, rfl⟩
      · rintro ⟨hstar, w, hw, rest, hrest, rfl⟩
        exact ⟨rest, (Token.mem_tails hhead).mpr ⟨hstar, w, hw, rfl⟩, (ih hnext htail).mpr hrest⟩

/-! ## Where the early exit shows -/

/-- After a single `*` comes the end of the pattern or a token that takes a byte. -/
def StarChain (ts : List Token) : Prop := ts.IsChain fun t next => t = .star → [] ∉ next.taken

/-- A token that does not start with `*` takes a byte. -/
theorem nil_notMem_nextToken {p : UInt8} (hp : p ≠ '*'.toUInt8) (pattern : Bytes) :
    [] ∉ (nextToken p pattern).1.taken := by
  have hclass : [] ∉ (classToken pattern).1.taken := by
    rcases matchCharacterClass_eq pattern 0 with ⟨-, h⟩ | ⟨negated, ranges, h, -⟩
    · rw [h]
      exact nil_notMem_oneByte
    · rw [h]
      cases negated <;> exact nil_notMem_oneByte
  rw [nextToken, if_neg fun h => hp h.1, if_neg fun h => hp h.1, if_neg hp]
  split
  · exact nil_notMem_oneByte
  · split
    · exact hclass
    · exact nil_notMem_oneByte

/-- Only a `*` with no second one after it is read as a single `*`. -/
theorem head_ne_of_nextToken_star {p : UInt8} {pattern : Bytes}
    (h : (nextToken p pattern).1 = .star) :
    (nextToken p pattern).2 = pattern ∧ pattern.head? ≠ some '*'.toUInt8 := by
  have hclass : (classToken pattern).1 ≠ .star := by
    rcases matchCharacterClass_eq pattern 0 with ⟨-, h⟩ | ⟨negated, ranges, h, -⟩
    all_goals
      rw [h]
      exact Token.noConfusion
  rw [nextToken] at h ⊢
  split at h
  · cases h
  · rename_i hleading
    rw [if_neg hleading]
    split at h
    · cases h
    · rename_i hanything
      rw [if_neg hanything]
      split at h
      · rename_i hp
        rw [if_pos hp]
        exact ⟨rfl, fun hhead => hanything ⟨hp, hhead⟩⟩
      · split at h
        · cases h
        · split at h
          · exact absurd h hclass
          · cases h

theorem starChain_tokens (fuel : Nat) (pattern : Bytes) : StarChain (tokens fuel pattern) := by
  induction fuel generalizing pattern with
  | zero => cases pattern <;> exact List.isChain_nil
  | succ fuel ih =>
    cases pattern with
    | nil => exact List.isChain_nil
    | cons p pattern =>
      rw [tokens]
      refine List.isChain_cons.mpr ⟨fun next hnext hstar => ?_, ih _⟩
      obtain ⟨hrest, hhead⟩ := head_ne_of_nextToken_star hstar
      rw [hrest] at hnext
      -- the pattern goes on with a byte that is not a `*`
      cases fuel with
      | zero => cases pattern <;> cases hnext
      | succ fuel =>
        cases pattern with
        | nil => cases hnext
        | cons q pattern =>
          rw [tokens, List.head?_cons, Option.mem_some_iff] at hnext
          rw [← hnext]
          exact nil_notMem_nextToken (fun hq => hhead (congrArg some hq)) pattern

/-- On the tokens of a pattern the matcher asks for a path only at the last `*`: behind any other
one comes a token that takes a byte anyway. -/
theorem matched_eq_accepted {ts : List Token} (hchain : StarChain ts) :
    matched ts = accepted ts := by
  induction ts with
  | nil => rfl
  | cons t ts ih =>
    obtain ⟨hnext, htail⟩ := List.isChain_cons.mp hchain
    have hrest := ih htail
    ext path
    rw [mem_matched_cons, hrest]
    cases ts with
    | nil =>
      by_cases ht : t = .star
      · rw [ht, accepted, accepted, mul_one, mem_star, mem_nonEmptyRun]
        simp only [true_implies]
      · rw [accepted_cons (.inl ht), and_iff_right fun h => absurd h ht]
    | cons u ts =>
      rw [accepted_cons (.inr (List.cons_ne_nil u ts))]
      refine and_iff_right_of_imp fun h ht hnil => ?_
      obtain ⟨v, -, w, hw, rfl⟩ := Language.mem_mul.mp h
      rw [← hrest, mem_matched_cons] at hw
      obtain ⟨x, hx, y, -, rfl⟩ := Language.mem_mul.mp hw.2
      obtain rfl : x = [] := (List.append_eq_nil_iff.mp (List.append_eq_nil_iff.mp hnil).2).1
      exact hnext u rfl ht hx

/-! ## Components

A path without empty components has a non-empty component in front of each of its separators.  So
where a component begins, whatever ends in a separator is a run of complete components, and the
matcher takes for `**/` what the token stands for.  The two differ only inside a component. -/

theorem kstar_cons {l : Language UInt8} {u w : Bytes} (hu : u ∈ l) (hw : w ∈ KStar.kstar l) :
    u ++ w ∈ KStar.kstar l := by
  obtain ⟨L, rfl, hL⟩ := Language.mem_kstar.mp hw
  exact Language.mem_kstar.mpr ⟨u :: L, rfl, List.forall_mem_cons.mpr ⟨hu, hL⟩⟩

theorem not_inside_nil : ¬Inside [] := by
  rintro ⟨c, hc, -⟩
  cases hc

theorem not_inside_slash (before : Bytes) : ¬Inside (before ++ [slash]) := by
  rintro ⟨c, hc, hne⟩
  rw [List.getLast?_concat] at hc
  exact hne (Option.some.inj hc).symm

/-- In front of a separator there is a component. -/
theorem Unbroken.inside {path before rest : Bytes} (h : Unbroken path)
    (heq : before ++ slash :: rest = path) : Inside before := by
  have hcomponents : components path = components before ++ components rest := by
    rw [← heq, components, List.splitOn_append_cons_self]
    rfl
  have hbefore : [] ∉ components before := fun hnil =>
    h (hcomponents ▸ List.mem_append_left _ hnil)
  rcases List.eq_nil_or_concat before with rfl | ⟨init, c, rfl⟩
  · exact absurd (List.mem_singleton_self []) hbefore
  · rw [List.concat_eq_append] at hbefore ⊢
    refine ⟨c, List.getLast?_concat, fun hc => hbefore ?_⟩
    rw [hc, components, List.splitOn_append_cons_self]
    exact List.mem_append_right _ (List.mem_singleton_self [])

/-- Where a component begins, what ends in a separator is a run of complete components.  The
induction goes along the text, with the component that has been started. -/
theorem components_of_slash {before name u rest path : Bytes} (h : Unbroken path)
    (hbefore : ¬Inside before) (hname : slash ∉ name)
    (heq : before ++ name ++ u ++ slash :: rest = path) :
    name ++ (u ++ [slash]) ∈ KStar.kstar component := by
  induction u generalizing before name with
  | nil =>
    rw [List.append_nil] at heq
    have hne : name ≠ [] := by
      rintro rfl
      rw [List.append_nil] at heq
      exact hbefore (h.inside heq)
    have hfirst : name ++ [slash] ∈ component := ⟨name, hne, hname, rfl⟩
    rw [List.nil_append, ← List.append_nil (name ++ [slash])]
    exact kstar_cons hfirst (Language.nil_mem_kstar _)
  | cons c u ih =>
    by_cases hc : c = slash
    · subst hc
      have hsplit : before ++ name ++ slash :: (u ++ slash :: rest) = path := by
        rw [← heq, List.append_assoc (before ++ name), List.cons_append]
      have hne : name ≠ [] := by
        rintro rfl
        rw [List.append_nil] at hsplit
        exact hbefore (h.inside hsplit)
      have hfirst : name ++ [slash] ∈ component := ⟨name, hne, hname, rfl⟩
      have hwalked : ¬Inside (before ++ name ++ [slash]) := not_inside_slash _
      have hrest : [] ++ (u ++ [slash]) ∈ KStar.kstar component :=
        ih hwalked List.not_mem_nil (by simpa using hsplit)
      have hall := kstar_cons hfirst hrest
      simpa using hall
    · have hnext : slash ∉ name ++ [c] := by
        intro hmem
        rcases List.mem_append.mp hmem with hmem | hmem
        · exact hname hmem
        · exact hc (List.mem_singleton.mp hmem).symm
      have hall : name ++ [c] ++ (u ++ [slash]) ∈ KStar.kstar component :=
        ih hbefore hnext (by simpa using heq)
      simpa using hall

/-- Complete components end in a separator. -/
theorem mem_leading_of_kstar {w : Bytes} (h : w ∈ KStar.kstar component) :
    w = [] ∨ ∃ u, w = u ++ [slash] := by
  obtain ⟨L, rfl, hL⟩ := Language.mem_kstar.mp h
  rcases List.eq_nil_or_concat L with rfl | ⟨L, v, rfl⟩
  · exact .inl rfl
  · obtain ⟨name, -, -, rfl⟩ := hL v (by simp)
    exact .inr ⟨L.flatten ++ name, by simp⟩

/-- The matcher lets a token take every word that it stands for. -/
theorem Token.taken_of_language {t : Token} {before w : Bytes} (h : w ∈ t.language before) :
    w ∈ t.taken := by
  by_cases ht : t = .leading
  · subst ht
    rcases h with rfl | ⟨-, hw⟩
    · exact .inl rfl
    · exact mem_leading_of_kstar hw
  · rw [t.taken_eq ht before]
    exact h

/-- The other words that it lets a token take are for a `**/` inside a component. -/
theorem Token.mem_taken {t : Token} {before w rest path : Bytes} (h : Unbroken path)
    (heq : before ++ w ++ rest = path) :
    w ∈ t.taken ↔ w ∈ t.language before ∨
      t = .leading ∧ Inside before ∧ ∃ u, w = u ++ [slash] := by
  constructor
  · intro hw
    by_cases ht : t = .leading
    · subst ht
      rcases mem_leading.mp hw with rfl | ⟨u, rfl⟩
      · exact .inl (.inl rfl)
      · by_cases hinside : Inside before
        · exact .inr ⟨rfl, hinside, u, rfl⟩
        · refine .inl (.inr ⟨hinside, ?_⟩)
          have hcomponents : [] ++ (u ++ [slash]) ∈ KStar.kstar component :=
            components_of_slash h hinside List.not_mem_nil (by simpa using heq)
          exact hcomponents
    · rw [t.taken_eq ht before] at hw
      exact .inl hw
  · rintro (hw | ⟨rfl, -, hu⟩)
    · exact Token.taken_of_language hw
    · exact .inr hu

/-! ## Where the matcher slips

`slipped` and `filled` take what the matcher accepts apart.  In the paths of the first a `**/` that
begins inside a component takes the rest of that component; those of the second are read as the
pattern says, but that a `*` at its end takes a non-empty run. -/

/-- The paths that some tokens spell when the first token that is not read as it should be is a
`**/` that begins inside a component and takes the rest of it, with or without further components.
-/
def slipped (before : Bytes) : List Token → Language UInt8
  | [] => 0
  | t :: ts =>
    {path | ∃ w rest, w ++ rest = path ∧
      (t = .leading ∧ Inside before ∧ (∃ u, w = u ++ [slash]) ∧ rest ∈ accepted ts ∨
        w ∈ t.language before ∧ rest ∈ slipped (before ++ w) ts)}

/-- The paths that some tokens spell with a non-empty run for a single `*` at their end. -/
def filled (before : Bytes) : List Token → Language UInt8
  | [] => 1
  | [.star] => nonEmptyRun
  | t :: ts =>
    {path | ∃ w ∈ t.language before, ∃ rest ∈ filled (before ++ w) ts, w ++ rest = path}

theorem mem_spelling_cons {before path : Bytes} {t : Token} {ts : List Token} :
    path ∈ spelling before (t :: ts) ↔
      ∃ w ∈ t.language before, ∃ rest ∈ spelling (before ++ w) ts, w ++ rest = path := Iff.rfl

theorem mem_slipped_cons {before path : Bytes} {t : Token} {ts : List Token} :
    path ∈ slipped before (t :: ts) ↔ ∃ w rest, w ++ rest = path ∧
      (t = .leading ∧ Inside before ∧ (∃ u, w = u ++ [slash]) ∧ rest ∈ accepted ts ∨
        w ∈ t.language before ∧ rest ∈ slipped (before ++ w) ts) := Iff.rfl

theorem mem_filled_cons {before path : Bytes} {t : Token} {ts : List Token}
    (h : t ≠ .star ∨ ts ≠ []) : path ∈ filled before (t :: ts) ↔
      ∃ w ∈ t.language before, ∃ rest ∈ filled (before ++ w) ts, w ++ rest = path := by
  cases ts with
  | nil =>
    cases t with
    | star => simp at h
    | _ => exact Iff.rfl
  | cons u ts => cases t <;> exact Iff.rfl

/-- **What the matcher accepts** behind a part of a path without empty components. -/
theorem mem_accepted {ts : List Token} {before rest path : Bytes} (h : Unbroken path)
    (heq : before ++ rest = path) :
    rest ∈ accepted ts ↔ rest ∈ slipped before ts ∨ rest ∈ filled before ts := by
  induction ts generalizing before rest with
  | nil => exact (or_iff_right fun hslipped => hslipped).symm
  | cons t ts ih =>
    by_cases hlast : t ≠ .star ∨ ts ≠ []
    · rw [accepted_cons hlast, Language.mem_mul, mem_slipped_cons, mem_filled_cons hlast]
      constructor
      · rintro ⟨w, hw, tail, htail, rfl⟩
        have hpath : before ++ w ++ tail = path := by rw [List.append_assoc, heq]
        rcases (Token.mem_taken h hpath).mp hw with hword | ⟨ht, hinside, hu⟩
        · rcases (ih hpath).mp htail with hslipped | hfilled
          · exact .inl ⟨w, tail, rfl, .inr ⟨hword, hslipped⟩⟩
          · exact .inr ⟨w, hword, tail, hfilled, rfl⟩
        · exact .inl ⟨w, tail, rfl, .inl ⟨ht, hinside, hu, htail⟩⟩
      · rintro (⟨w, tail, rfl, ⟨rfl, -, hu, htail⟩ | ⟨hword, hslipped⟩⟩ |
          ⟨w, hword, tail, hfilled, rfl⟩)
        · exact ⟨w, .inr hu, tail, htail, rfl⟩
        · have hpath : before ++ w ++ tail = path := by rw [List.append_assoc, heq]
          exact ⟨w, Token.taken_of_language hword, tail, (ih hpath).mpr (.inl hslipped), rfl⟩
        · have hpath : before ++ w ++ tail = path := by rw [List.append_assoc, heq]
          exact ⟨w, Token.taken_of_language hword, tail, (ih hpath).mpr (.inr hfilled), rfl⟩
    · obtain ⟨ht, hts⟩ := not_or.mp hlast
      obtain rfl := not_not.mp ht
      obtain rfl := not_not.mp hts
      refine (or_iff_right ?_).symm
      rintro ⟨w, tail, -, ⟨hleading, -⟩ | ⟨-, hslipped⟩⟩
      · cases hleading
      · exact hslipped

/-- What some tokens spell: a single `*` at their end takes a non-empty run, or nothing. -/
theorem mem_spelling {ts : List Token} {before path : Bytes} :
    path ∈ spelling before ts ↔ path ∈ filled before ts ∨
      ∃ init, ts = init ++ [.star] ∧ path ∈ spelling before init := by
  induction ts generalizing before path with
  | nil =>
    refine (or_iff_left ?_).symm
    rintro ⟨init, hinit, -⟩
    exact absurd hinit (by simp)
  | cons t ts ih =>
    by_cases hlast : t ≠ .star ∨ ts ≠ []
    · rw [mem_filled_cons hlast, mem_spelling_cons]
      constructor
      · rintro ⟨w, hw, rest, hrest, rfl⟩
        rcases ih.mp hrest with hfilled | ⟨init, rfl, hinit⟩
        · exact .inl ⟨w, hw, rest, hfilled, rfl⟩
        · exact .inr ⟨t :: init, rfl, w, hw, rest, hinit, rfl⟩
      · rintro (⟨w, hw, rest, hrest, rfl⟩ | ⟨init, hinit, hpath⟩)
        · exact ⟨w, hw, rest, ih.mpr (.inl hrest), rfl⟩
        · cases init with
          | nil =>
            obtain ⟨rfl, rfl⟩ := List.cons.inj hinit
            simp at hlast
          | cons u init =>
            obtain ⟨rfl, rfl⟩ := List.cons.inj hinit
            obtain ⟨w, hw, rest, hrest, rfl⟩ := mem_spelling_cons.mp hpath
            exact ⟨w, hw, rest, ih.mpr (.inr ⟨init, rfl, hrest⟩), rfl⟩
    -- the last star may also stand for nothing, which only `spelling` counts
    · obtain ⟨ht, hts⟩ := not_or.mp hlast
      obtain rfl := not_not.mp ht
      obtain rfl := not_not.mp hts
      have hspelling : path ∈ spelling before [.star] ↔ slash ∉ path := by
        rw [mem_spelling_cons]
        constructor
        · rintro ⟨w, hw, rest, rfl, rfl⟩
          rw [List.append_nil]
          exact hw
        · intro hpath
          exact ⟨path, hpath, [], rfl, List.append_nil path⟩
      rw [hspelling]
      constructor
      · intro hpath
        by_cases hnil : path = []
        · exact .inr ⟨[], rfl, hnil⟩
        · exact .inl ⟨hnil, hpath⟩
      · rintro (⟨-, hpath⟩ | ⟨init, hinit, hpath⟩)
        · exact hpath
        · cases init with
          | nil =>
            obtain rfl : path = [] := hpath
            exact List.not_mem_nil
          | cons u init => simp at hinit

/-- Where every `**/` is at the start of the pattern, behind a separator or behind another `**/`, it
only ever begins where a component does, and the matcher does not slip. -/
theorem not_mem_slipped_of_placed {ts : List Token} {before path : Bytes}
    (hfirst : ts.head? = some .leading → ¬Inside before)
    (hplaced : ts.IsChain fun t next => next = .leading → t = .literal slash ∨ t = .leading) :
    path ∉ slipped before ts := by
  induction ts generalizing before path with
  | nil => exact id
  | cons t ts ih =>
    obtain ⟨hnext, htail⟩ := List.isChain_cons.mp hplaced
    rintro ⟨w, rest, -, ⟨rfl, hinside, -⟩ | ⟨hw, hslipped⟩⟩
    · exact hfirst rfl hinside
    · refine ih (fun hhead => ?_) htail hslipped
      rcases hnext _ hhead rfl with rfl | rfl
      · obtain ⟨c, rfl, rfl⟩ := hw
        exact not_inside_slash before
      · rcases hw with rfl | ⟨-, hw⟩
        · rw [List.append_nil]
          exact hfirst rfl
        · rcases mem_leading_of_kstar hw with rfl | ⟨u, rfl⟩
          · rw [List.append_nil]
            exact hfirst rfl
          · rw [← List.append_assoc]
            exact not_inside_slash _

/-- **The matcher decides the language of the pattern, but for two slips.**  A path that is spelled
with a `**/` that takes the rest of a component has to be spelled with complete components too; and
a path that is spelled by what precedes a single `*` at the end of the pattern has to be accepted
with a non-empty run for that `*` too. -/
theorem matchesGlob_iff_mem_patternLanguage (pattern path : Bytes) (hascii : AsciiRanges pattern)
    (hclean : Unbroken path) :
    (matchesGlob pattern path = true ↔ path ∈ patternLanguage pattern) ↔
      (path ∈ slipped [] (tokens pattern.length pattern) → path ∈ patternLanguage pattern) ∧
      ∀ ts, tokens pattern.length pattern = ts ++ [.star] → path ∈ spelling [] ts →
        path ∈ filled [] (ts ++ [.star]) ∨ path ∈ slipped [] (ts ++ [.star]) := by
  have hmatch : matchesGlob pattern path = true ↔
      path ∈ slipped [] (tokens pattern.length pattern) ∨
        path ∈ filled [] (tokens pattern.length pattern) := by
    rw [matchesGlob, globMatches_iff_mem_matched le_rfl hascii,
      matched_eq_accepted (starChain_tokens pattern.length pattern)]
    exact mem_accepted hclean (List.nil_append path)
  have hspelling : path ∈ patternLanguage pattern ↔
      path ∈ filled [] (tokens pattern.length pattern) ∨
        ∃ ts, tokens pattern.length pattern = ts ++ [.star] ∧ path ∈ spelling [] ts := mem_spelling
  rw [hmatch]
  constructor
  · intro h
    refine ⟨fun hslipped => h.mp (.inl hslipped), fun ts hts hpath => ?_⟩
    rw [← hts]
    exact (h.mpr (hspelling.mpr (.inr ⟨ts, hts, hpath⟩))).symm
  · rintro ⟨hslips, hstar⟩
    refine ⟨fun h => h.elim hslips fun hfilled => hspelling.mpr (.inl hfilled), fun h => ?_⟩
    rcases hspelling.mp h with hfilled | ⟨ts, hts, hpath⟩
    · exact .inr hfilled
    · rw [hts]
      exact (hstar ts hts hpath).symm

/-- A `**/` at the start of a pattern that ends in another token: what the matcher found is in the
language, with one component in front. -/
theorem mem_patternLanguage_generated :
    ascii "lib/g2.h" ∈ patternLanguage (ascii "**/g?.[ch]") := by
  have htokens : tokens (ascii "**/g?.[ch]").length (ascii "**/g?.[ch]") =
      [.leading, .literal 103, .any, .literal 46, .oneOf false [(99, 99), (104, 104)]] := by
    decide +kernel
  have hascii : AsciiRanges (ascii "**/g?.[ch]") := by
    rw [AsciiRanges, htokens]
    simp only [List.forall_mem_cons, Token.AsciiRanges, List.not_mem_nil, false_implies,
      implies_true, true_or, and_self]
  have hmatch : matchesGlob (ascii "**/g?.[ch]") (ascii "lib/g2.h") = true := by decide +kernel
  refine ((matchesGlob_iff_mem_patternLanguage _ (ascii "lib/g2.h") hascii
    (by decide +kernel)).mpr ⟨fun hslipped => ?_, fun ts hts _ => ?_⟩).mp hmatch
  · rw [htokens] at hslipped
    refine absurd hslipped (not_mem_slipped_of_placed (fun _ => not_inside_nil) ?_)
    simp [List.isChain_cons]
  · have hlast := congrArg List.getLast? (htokens ▸ hts)
    rw [List.getLast?_concat] at hlast
    exact absurd hlast (by decide)

/-- **The two slips.**  `a*` is a rule, and `a` is an `a` and a possibly empty run, but the matcher
says no.  `a**/b` is a rule too, and `a/b` has no complete component behind its `a`, but the matcher
says yes: it lets the `**/` take the separator that ends the component `a`. -/
theorem matchesGlob_slips :
    (load (ascii "a*") = .ok ⟨[⟨ascii "a*", false, false, false⟩]⟩ ∧
      AsciiRanges (ascii "a*") ∧ Unbroken (ascii "a") ∧
        matchesGlob (ascii "a*") (ascii "a") = false ∧
      ascii "a" ∈ patternLanguage (ascii "a*")) ∧
    load (ascii "a**/b") = .ok ⟨[⟨ascii "a**/b", false, false, false⟩]⟩ ∧
      AsciiRanges (ascii "a**/b") ∧ Unbroken (ascii "a/b") ∧
      matchesGlob (ascii "a**/b") (ascii "a/b") = true ∧
      ascii "a/b" ∉ patternLanguage (ascii "a**/b") := by
  refine ⟨⟨by decide +kernel, by decide +kernel, by decide +kernel, by decide +kernel, ?_⟩,
    by decide +kernel, by decide +kernel, by decide +kernel, by decide +kernel, ?_⟩
  · have htokens : tokens (ascii "a*").length (ascii "a*") = [.literal 97, .star] := by
      decide +kernel
    rw [patternLanguage, htokens]
    exact ⟨[97], ⟨97, rfl, rfl⟩, [], ⟨[], List.not_mem_nil, [], rfl, rfl⟩, rfl⟩
  · have htokens : tokens (ascii "a**/b").length (ascii "a**/b") =
        [.literal 97, .leading, .literal 98] := by
      decide +kernel
    rw [patternLanguage, htokens]
    rintro ⟨w, ⟨c, rfl, rfl⟩, rest, ⟨v, hv, tail, htail, rfl⟩, heq⟩
    rcases hv with rfl | ⟨hinside, -⟩
    · obtain ⟨x, ⟨d, rfl, rfl⟩, last, rfl, rfl⟩ := htail
      exact absurd heq (by decide)
    · exact hinside ⟨97, rfl, by decide⟩

end IgnoreRules

end VeritasSync
