import VeritasSync.Common.Path

/-!
# Ignore rules

`storage::IgnoreRules`: the text of a `.veritasignore` file is checked by `validate`, parsed by
`load`, and `isIgnored` decides whether a task-relative path takes part in synchronisation.  The
scanner, the manifest a node sends and the manifest it applies all filter by it.

The matcher walks two positions through `pattern` and `path`; the model walks the two remaining
texts.  Every call consumes at least one byte of the pattern, so the length of the pattern bounds
the recursion.

The three built-in rules are not optional: whatever the rule file says, a partial download
(`*.part`), a repository directory and the rule file itself are ignored.

This module has the functions as they are, and nothing about what they mean.  What a pattern stands
for is the subject of `VeritasSync.Storage.Glob`; which texts are accepted, and as what, that of
`VeritasSync.Storage.RuleText`; which paths a rule covers, that of
`VeritasSync.Storage.RuleMatching`; and what a path looks like when the matcher gets to see it, that
of `VeritasSync.Storage.PathNormalization`.  Three of them find a corner in which the code does
something else than what it is for, and the corners can be seen below: the early `return` of the
matcher at the end of the path, the jump to the closing bracket in `Validate`, the order of the
steps in `Normalize`.
-/

set_option autoImplicit false

namespace VeritasSync

namespace IgnoreRules

/-- `IgnoreRules::Rule`: a pattern without its marks, and what the marks said. -/
structure Rule where
  pattern : Bytes
  negated : Bool
  rooted : Bool
  directoryOnly : Bool
  deriving DecidableEq

/-! ## Matching

The matcher of the source is a recursive lambda over two indices.  Only what lies behind the indices
matters, so the functions here take the two remaining texts, and the loops over possible ends of a
wildcard become lists of remaining texts in the order in which the loops try them.  The order has no
influence on the answer; it is kept so that the definitions can be read next to the source. -/

/-- A `char`, which is signed on the platform. -/
def signed (c : UInt8) : Int := if c.toNat < 128 then c.toNat else (c.toNat : Int) - 256

/-- The body of a character class, after the optional `!`. -/
def classContains (value : UInt8) : Bytes → Bool
  | [] => false
  | [a] => value == a
  | [a, b] => value == a || value == b
  | a :: b :: c :: rest =>
    if b = '-'.toUInt8 then
      (signed a ≤ signed value && signed value ≤ signed c) || classContains value rest
    else value == a || classContains value (b :: c :: rest)

/-- `MatchCharacterClass` on what follows the `[`: does the class contain the value, and what
follows the class. -/
def matchCharacterClass (body : Bytes) (value : UInt8) : Option (Bool × Bytes) :=
  match body.dropWhile fun c => c ≠ ']'.toUInt8 with
  | [] => none
  | _ :: next =>
    match body.takeWhile fun c => c ≠ ']'.toUInt8 with
    | [] => some (false, next)
    | c :: rest =>
      if c = '!'.toUInt8 then some (!classContains value rest, next)
      else some (classContains value (c :: rest), next)

/-- What remains of a path after `*` has consumed zero or more bytes other than a separator. -/
def starTails : Bytes → List Bytes
  | [] => [[]]
  | c :: rest => (c :: rest) :: if c = slash then [] else starTails rest

/-- What remains of a path after each of its separators. -/
def afterSlashes : Bytes → List Bytes
  | [] => []
  | c :: rest => if c = slash then rest :: afterSlashes rest else afterSlashes rest

/-- `GlobMatches`, on the remaining pattern and the remaining path. -/
def globMatches : Nat → Bytes → Bytes → Bool
  | _, [], path => path = []
  | 0, _ :: _, _ => false
  | fuel + 1, p :: pattern, path =>
    if p = '*'.toUInt8 ∧ pattern.head? = some '*'.toUInt8 ∧ pattern[1]? = some slash then
      globMatches fuel (pattern.drop 2) path ||
        (afterSlashes path).any fun rest => globMatches fuel (pattern.drop 2) rest
    else if p = '*'.toUInt8 ∧ pattern.head? = some '*'.toUInt8 then
      path.tails.any fun rest => globMatches fuel (pattern.drop 1) rest
    else
      match path with
      | [] => false
      | c :: rest =>
        if p = '*'.toUInt8 then
          (starTails (c :: rest)).any fun rest => globMatches fuel pattern rest
        else if p = '?'.toUInt8 then c ≠ slash && globMatches fuel pattern rest
        else if p = '['.toUInt8 then
          match matchCharacterClass pattern c with
          | some (true, next) => c ≠ slash && globMatches fuel next rest
          | _ => false
        else p = c && globMatches fuel pattern rest

/-- `GlobMatches` from the start of both texts. -/
def matchesGlob (pattern path : Bytes) : Bool := globMatches pattern.length pattern path

/-- `find` of a byte from a position on. -/
def find (c : UInt8) (text : Bytes) (start : Nat) : Option Nat :=
  ((text.drop start).findIdx? fun b => b = c).map fun i => start + i

/-- `substr`, which takes what there is if less is there than was asked for. -/
def substr (text : Bytes) (start count : Nat) : Bytes := (text.drop start).take count

/-- The loop over the components of a path, from the one that starts at `start` on: it hands the
two ends of each component to `found` and stops where that says yes.  The last component has no
end. -/
def overComponents (path : Bytes) (found : Nat → Option Nat → Bool) : Nat → Nat → Bool
  | 0, _ => false
  | fuel + 1, start =>
    if path.length < start then false
    else
      found start (find slash path start) ||
        match find slash path start with
        | none => false
        | some stop => overComponents path found fuel (stop + 1)

/-- `MatchesAnyComponent`: the pattern against each component of the path alone. -/
def matchesAnyComponent (pattern path : Bytes) : Bool :=
  overComponents path (fun start stop =>
    matchesGlob pattern (substr path start (stop.getD path.length - start))) (path.length + 1) 0

/-- `IgnoreRules::Matches`: a rule against a path, depending on whether it is anchored and whether
it has a separator in it.  A rule for directories is tried on what the path lies below as well. -/
def ruleMatches (rule : Rule) (path : Bytes) : Bool :=
  let componentPattern := !rule.rooted && !rule.pattern.contains slash
  if !rule.directoryOnly then
    if componentPattern then matchesAnyComponent rule.pattern path
    else matchesGlob rule.pattern path
  else
    overComponents path (fun start stop =>
      let directory := substr path 0 (stop.getD path.length)
      componentPattern && matchesGlob rule.pattern (substr path start (directory.length - start)) ||
        !componentPattern && matchesGlob rule.pattern directory) (path.length + 1) 0

/-- `IgnoreRules::defaults_`: the rules that every task has before those of its file. -/
def defaults : List Rule :=
  [⟨ascii "*.part", false, false, false⟩, ⟨ascii ".git", false, false, true⟩,
    ⟨ascii ".veritasignore", false, false, false⟩]

/-! ## Parsing

`Validate` and `Load` go through the same lines one after the other, the first to refuse and the
second to keep.  They do not share the code that takes a line apart, and it is not quite the same
code. -/

/-- The lines of a rule text, without a final `\r`. -/
def textLines (text : Bytes) : List Bytes :=
  (text.splitOn '\n'.toUInt8).map fun line =>
    if line.getLast? = some '\r'.toUInt8 then line.dropLast else line

/-- A space or a tab. -/
def blank (c : UInt8) : Bool := c = ' '.toUInt8 || c = '\t'.toUInt8

/-- A line without the blanks around it. -/
def trim (line : Bytes) : Bytes := (line.dropWhile blank).rdropWhile blank

/-- The line starts with the escape `\!` or `\#`. -/
def startsEscaped (line : Bytes) : Bool := ascii "\\!" <+: line || ascii "\\#" <+: line

/-- Drop the first byte if it is `c`. -/
def dropFront (c : UInt8) (line : Bytes) : Bytes :=
  if line.head? = some c then line.tail else line

/-- Drop the last byte if it is `c`. -/
def dropBack (c : UInt8) (line : Bytes) : Bytes :=
  if line.getLast? = some c then line.dropLast else line

/-- The control character and bracket checks of `Validate`, from some position on. -/
def checkClasses (lineNumber : Nat) : Nat → Bytes → Except Error Unit
  | 0, _ => .ok ()
  | _ + 1, [] => .ok ()
  | fuel + 1, c :: rest =>
    if c.toNat < 32 then
      .error (.invalidArgument s!"ignore rule line {lineNumber} contains a control character")
    else if c = '['.toUInt8 then
      let body := rest.takeWhile fun b => b ≠ ']'.toUInt8
      if body.length = rest.length ∨ body = [] ∨ body = ['!'.toUInt8] then
        .error (.invalidArgument s!"ignore rule line {lineNumber} has an invalid character class")
      else checkClasses lineNumber fuel (rest.drop (body.length + 1))
    else if c = ']'.toUInt8 then
      .error (.invalidArgument s!"ignore rule line {lineNumber} has an unmatched bracket")
    else checkClasses lineNumber fuel rest

/-- What `Validate` does with one line: whether the line holds a rule. -/
def validateLine (lineNumber : Nat) (line : Bytes) : Except Error Bool := do
  if line.length > 512 then
    throw (.invalidArgument s!"ignore rule line {lineNumber} exceeds 512 bytes")
  let line := trim line
  if line = [] ∨ line.head? = some '#'.toUInt8 then return false
  let line := if startsEscaped line then line.tail else line
  let line := dropBack slash (dropFront slash (dropFront '!'.toUInt8 line))
  if line = [] then throw (.invalidArgument s!"ignore rule line {lineNumber} has no pattern")
  if '\\'.toUInt8 ∈ line then
    throw (.invalidArgument s!"ignore rule line {lineNumber} contains an unsupported escape")
  if (components line).any fun c => c = [] ∨ c = [dot] ∨ c = [dot, dot] then
    throw (.invalidArgument s!"ignore rule line {lineNumber} contains an invalid path component")
  checkClasses lineNumber line.length line
  return true

/-- The loop of `Validate`: the number of rules, counted from `ruleCount`. -/
def countRules : Nat → Nat → List Bytes → Except Error Nat
  | _, ruleCount, [] => .ok ruleCount
  | lineNumber, ruleCount, line :: rest => do
    if ← validateLine lineNumber line then
      if ruleCount + 1 > 128 then throw (.invalidArgument "ignore rules exceed 128 patterns")
      countRules (lineNumber + 1) (ruleCount + 1) rest
    else countRules (lineNumber + 1) ruleCount rest

/-- `IgnoreRules::Validate`: the checks on a rule text, in the order in which their messages would
come. -/
def validate (text : Bytes) : Except Error Unit := do
  if text.length > 16 * 1024 then throw (.invalidArgument "ignore rules exceed 16 KiB")
  if (0 : UInt8) ∈ text then throw (.invalidArgument "ignore rules contain a null byte")
  let ruleCount ← countRules 1 0 (textLines text)
  if ruleCount = 0 ∧ text ≠ [] then
    throw (.invalidArgument "ignore rules do not contain a pattern")

/-- The rule on one line, if there is one. -/
def parseLine (line : Bytes) : Option Rule :=
  let line := trim line
  if line = [] ∨ line.head? = some '#'.toUInt8 then none
  else
    let escapedBang := decide (ascii "\\!" <+: line)
    let line := if startsEscaped line then line.tail else line
    let negated := !escapedBang && line.head? = some '!'.toUInt8
    let line := if negated then line.tail else line
    let rooted := decide (line.head? = some slash)
    let line := dropFront slash line
    let directoryOnly := decide (line.getLast? = some slash)
    let line := dropBack slash line
    if line = [] then none else some ⟨line, negated, rooted, directoryOnly⟩

end IgnoreRules

/-- `storage::IgnoreRules` after `Load`: the rules of the text, in order. -/
structure IgnoreRules where
  rules : List IgnoreRules.Rule
  deriving DecidableEq

namespace IgnoreRules

/-- `IgnoreRules::Load`: the rules of a text, line by line.  It validates first, so a text is loaded
whole or not at all. -/
def load (text : Bytes) : Except Error IgnoreRules := do
  validate text
  pure ⟨(textLines text).filterMap parseLine⟩

/-- The leading `./`s of a path, removed. -/
def stripDotSlash : Nat → Bytes → Bytes
  | 0, path => path
  | fuel + 1, path => if ascii "./" <+: path then stripDotSlash fuel (path.drop 2) else path

/-- `IgnoreRules::Normalize`: the form of a path in which rules are tried on it. -/
def normalize (value : Bytes) : Except Error Bytes := do
  if value = [] then throw (.invalidArgument "ignore path is required")
  let result := value.map fun c => if c = '\\'.toUInt8 then slash else c
  if result.head? = some slash ∨ contains result (ascii ":/") then
    throw (.invalidArgument "ignore path must be task-relative")
  let result := stripDotSlash result.length result
  if result = [] ∨ result.getLast? = some slash ∨ contains result (ascii "//") then
    throw (.invalidArgument "ignore path must name a file or directory")
  if (components result).any fun c => c = [dot] ∨ c = [dot, dot] then
    throw (.invalidArgument "ignore path must not traverse directories")
  pure result

/-- What the rules say about a normalised path: the built-in rules, then the last rule of the file
that matches. -/
def ignores (rules : IgnoreRules) (path : Bytes) : Bool :=
  (defaults.any fun rule => ruleMatches rule path) ||
    rules.rules.foldl (fun ignored rule => if ruleMatches rule path then !rule.negated else ignored)
      false

/-- `IgnoreRules::IsIgnored`: the built-in rules exclude for good; after them the last rule that
matches decides. -/
def isIgnored (rules : IgnoreRules) (relativePath : Path) : Except Error Bool := do
  let path ← normalize relativePath
  pure (rules.ignores path)

/-! ## What the rule file can be rejected with -/

theorem rejects_checkClasses (lineNumber fuel : Nat) (line : Bytes) :
    Rejects (checkClasses lineNumber fuel line) := by
  fun_induction checkClasses lineNumber fuel line with
  | case1 => exact .ok _
  | case2 => exact .ok _
  | case3 => exact .error _
  | case4 => exact .error _
  | case5 _ _ _ _ _ ih => exact ih
  | case6 => exact .error _
  | case7 _ _ _ _ _ _ ih => exact ih

theorem rejects_validateLine (lineNumber : Nat) (line : Bytes) :
    Rejects (validateLine lineNumber line) := by
  refine .ite (.error _) (.ite (.ok _) (.ite (.error _) (.ite (.error _) (.ite (.error _) ?_))))
  exact .bind (rejects_checkClasses _ _ _) fun _ _ => .ok _

theorem rejects_countRules (lineNumber ruleCount : Nat) (lines : List Bytes) :
    Rejects (countRules lineNumber ruleCount lines) := by
  induction lines generalizing lineNumber ruleCount with
  | nil => exact .ok _
  | cons line lines ih =>
    refine .bind (rejects_validateLine _ _) fun holdsRule _ => ?_
    exact .ite (.ite (.error _) (ih _ _)) (ih _ _)

theorem rejects_load (text : Bytes) : Rejects (load text) := by
  have hvalidate : Rejects (validate text) :=
    .ite (.error _) (.ite (.error _) (.bind (rejects_countRules _ _ _) fun _ _ =>
      .ite (.error _) (.ok _)))
  exact hvalidate.bind fun _ _ => .ok _

theorem rejects_isIgnored (rules : IgnoreRules) (relativePath : Path) :
    Rejects (rules.isIgnored relativePath) := by
  have hnormalize : Rejects (normalize relativePath) :=
    .ite (.error _) (.ite (.error _) (.ite (.error _) (.ite (.error _) (.ok _))))
  exact hnormalize.bind fun _ _ => .ok _

end IgnoreRules

end VeritasSync
