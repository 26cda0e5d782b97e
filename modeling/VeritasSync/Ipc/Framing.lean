import VeritasSync.Common.Path
import VeritasSync.Lib.Percent

/-!
# The frames of the engine's pipe

The desktop application talks to the engine over a pipe, in lines of fields with tabs between them.
Three languages escape the same four characters, each over its own kind of string: the engine over
bytes, the host of the application over characters and over bytes, its pages over UTF-16.

A text is a list of characters.  `utf8` and `utf16` are what the three see of it.

That the three agree is not obvious, since no two of them escape the same thing.  The engine looks
at bytes, and a byte above ASCII is copied as it is; the host looks at characters, and a character
above ASCII is copied as it is; the pages look at code units of UTF-16.  The argument is the same
each time: the characters that matter are ASCII, UTF-8 and UTF-16 spell them as one unit and spell
no other character with that unit, so escaping commutes with encoding (`utf8_escape`).  Everything
after that is `Percent`, the library's escaping of byte strings.

The pages are the odd ones out.  They do not parse an escape, they replace the matches of a regular
expression, and what they leave alone they leave alone silently.  For texts that one of the others
has written this makes no difference, because there every percent sign starts an escape.

## What is here

* `IpcService` — `Escape`, `Unescape` and `Fields` of the engine.
* `IpcHost` — `escape`, `unescape` and the message of `request`.
* `IpcPage` — `decodeField`, `frameLines` and `frameRows`.
* `utf8_escape` — the host escapes characters as the engine escapes bytes.
* `IpcPage.decodeField_escape` — an escaped text in UTF-16.
* `ipc_framing` — **every message and every row arrives as it was**.
-/

set_option autoImplicit false

namespace VeritasSync

/-! ## Texts

A Rust `String` holds characters and no lone surrogates, so a text is a list of `Char`.  What the
engine sees of it are its bytes, and what the pages see are its code units. -/

/-- A text without lone surrogates. -/
abbrev Text := List Char

/-- The bytes of a text. -/
def utf8 (text : Text) : Bytes := text.flatMap String.utf8EncodeChar

/-- `String::from_utf8`. -/
def fromUtf8 (bytes : Bytes) : Option Text := bytes.toByteArray.utf8Decode?.map Array.toList

/-- The code units of a character. -/
def utf16Char (c : Char) : List UInt16 :=
  if c.toNat < 0x10000 then [UInt16.ofNat c.toNat]
  else
    [UInt16.ofNat (0xD800 + (c.toNat - 0x10000) / 0x400),
      UInt16.ofNat (0xDC00 + (c.toNat - 0x10000) % 0x400)]

/-- The code units of a text. -/
def utf16 (text : Text) : List UInt16 := text.flatMap utf16Char

/-- Two uppercase hexadecimal digits, padded with a zero: `setw(2)` with `setfill('0')`, and
`{:02X}`. -/
def hex02 (n : Nat) : List Char :=
  let digits := (Nat.toDigits 16 n).map Char.toUpper
  List.replicate (2 - digits.length) '0' ++ digits

/-! ## The engine -/

namespace IpcService

/-- What `Escape` writes for one character. -/
def escapeCharacter (character : UInt8) : Bytes :=
  if character = '%'.toUInt8 ∨ character = '\t'.toUInt8 ∨ character = '\r'.toUInt8 ∨
      character = '\n'.toUInt8 then
    '%'.toUInt8 :: (hex02 character.toNat).map Char.toUInt8
  else [character]

/-- `Escape`. -/
def escape (value : Bytes) : Bytes := value.flatMap escapeCharacter

/-- `Unescape`. -/
def unescape : Bytes → Except Error Bytes :=
  Percent.decodeWith Percent.byteOfSigned (.invalidArgument "invalid IPC escape")
    (.invalidArgument "invalid IPC escape")

/-- `Fields`. -/
def fields (request : Bytes) : Except Error (List Bytes) :=
  (Percent.splitFields '\t'.toUInt8 request).mapM unescape

/-- A row of a response. -/
def row (cells : List Bytes) : Bytes :=
  ascii "ROW\t" ++ ['\t'.toUInt8].intercalate (cells.map escape) ++ ascii "\n"

/-- A response with rows. -/
def rows (table : List (List Bytes)) : Bytes := table.flatMap row ++ ascii "END\n"

end IpcService

/-! ## The host -/

namespace IpcHost

/-- What `escape` writes for one character. -/
def escapeCharacter (character : Char) : Text :=
  if character ∈ ['%', '\t', '\r', '\n'] then '%' :: hex02 character.toNat else [character]

/-- `escape`. -/
def escape (value : Text) : Text := value.flatMap escapeCharacter

/-- `unescape`. -/
def unescape (value : Text) : Except String Text := do
  let output ← Percent.decodeWith Percent.byteOfShifted "IPC escape is truncated"
    "IPC escape is invalid" (utf8 value)
  match fromUtf8 output with
  | some text => pure text
  | none => throw "IPC field is not UTF-8"

/-- The name of the protocol. -/
def tag : Text := "VSYNC_IPC/1".toList

/-- The message of `request`. -/
def message (command : Text) (args : List Text) : Text :=
  tag ++ ['\t'] ++ escape command ++ args.flatMap fun argument => '\t' :: escape argument

end IpcHost

/-! ## The pages -/

namespace IpcPage

/-- `[0-9a-f]`, in either case, with its value. -/
def hexValue (unit : UInt16) : Option Nat :=
  if 48 ≤ unit ∧ unit ≤ 57 then some (unit.toNat - 48)
  else if 97 ≤ unit ∧ unit ≤ 102 then some (unit.toNat - 87)
  else if 65 ≤ unit ∧ unit ≤ 70 then some (unit.toNat - 55)
  else none

/-- `decodeField`: the leftmost match of the expression is replaced, and then the leftmost of what
comes after it. -/
def decodeField : List UInt16 → List UInt16
  | [] => []
  | unit :: rest =>
    if unit = 37 then
      match rest with
      | high :: low :: rest' =>
        match hexValue high, hexValue low with
        | some h, some l => UInt16.ofNat (16 * h + l) :: decodeField rest'
        | _, _ => unit :: decodeField (high :: low :: rest')
      | rest => unit :: decodeField rest
    else unit :: decodeField rest

/-- `split(/\r?\n/)`. -/
def splitLines : List UInt16 → List (List UInt16)
  | [] => [[]]
  | 13 :: 10 :: rest => [] :: splitLines rest
  | 10 :: rest => [] :: splitLines rest
  | unit :: rest => (splitLines rest).modifyHead (unit :: ·)

/-- `frameLines`. -/
def frameLines (reply : List UInt16) : List (List UInt16) :=
  (splitLines reply).filter fun line => line ≠ []

/-- The start of a row. -/
def rowTag : List UInt16 := utf16 ['R', 'O', 'W', '\t']

/-- `frameRows`. -/
def frameRows (reply : List UInt16) : List (List (List UInt16)) :=
  ((frameLines reply).filter fun line => rowTag <+: line).map fun line =>
    ((line.splitOn 9).drop 1).map decodeField

end IpcPage

/-! ## UTF-8 -/

theorem utf8_append (a b : Text) : utf8 (a ++ b) = utf8 a ++ utf8 b := List.flatMap_append

theorem utf8_cons (c : Char) (rest : Text) :
    utf8 (c :: rest) = String.utf8EncodeChar c ++ utf8 rest := List.flatMap_cons

theorem fromUtf8_utf8 (text : Text) : fromUtf8 (utf8 text) = some text := by
  have hdecode : (utf8 text).toByteArray.utf8Decode? = some text.toArray :=
    List.utf8Decode?_utf8Encode
  rw [fromUtf8, hdecode]
  rfl

/-- A character of several bytes has no byte of ASCII. -/
theorem le_of_mem_utf8EncodeChar {c : Char} (hc : 128 ≤ c.toNat) {b : UInt8}
    (hb : b ∈ String.utf8EncodeChar c) : 128 ≤ b.toNat := by
  have hbyte : ∀ n, 128 ≤ n → n < 256 → 128 ≤ (UInt8.ofNat n).toNat := by
    intro n hn hlt
    rw [UInt8.toNat_ofNat_of_lt' hlt]
    exact hn
  rw [Char.toNat] at hc
  rw [String.utf8EncodeChar] at hb
  have h2 : ∀ x, 128 ≤ (UInt8.ofNat (x % 64 + 128)).toNat := fun x => hbyte _ (by omega) (by omega)
  split at hb
  · omega
  split at hb
  · simp only [List.mem_cons, List.not_mem_nil, or_false] at hb
    rcases hb with rfl | rfl
    · exact hbyte _ (by omega) (by omega)
    · exact h2 _
  split at hb
  · simp only [List.mem_cons, List.not_mem_nil, or_false] at hb
    rcases hb with rfl | rfl | rfl
    · exact hbyte _ (by omega) (by omega)
    · exact h2 _
    · exact h2 _
  · simp only [List.mem_cons, List.not_mem_nil, or_false] at hb
    rcases hb with rfl | rfl | rfl | rfl
    · exact hbyte _ (by omega) (by omega)
    · exact h2 _
    · exact h2 _
    · exact h2 _

theorem utf8EncodeChar_of_lt {c : Char} (hc : c.toNat < 128) :
    String.utf8EncodeChar c = [UInt8.ofNat c.toNat] := by
  rw [Char.toNat] at hc
  exact if_pos (by omega)

/-! ## Escaping bytes

`Escape` of the engine is `Percent.encode` for the bytes it keeps, and its `Unescape` returns what
`Percent.decode` does, with an exception of its own where that returns nothing. -/

/-- A byte that is not escaped. -/
def kept (c : UInt8) : Bool :=
  c ≠ '%'.toUInt8 && c ≠ '\t'.toUInt8 && c ≠ '\r'.toUInt8 && c ≠ '\n'.toUInt8

namespace IpcService

theorem escape_eq : escape = Percent.encode kept := by
  have hunit : escapeCharacter = Percent.unit kept :=
    funext (Percent.byte_forall _ (by decide +kernel))
  funext value
  rw [escape, Percent.encode, hunit]

theorem escapeCharacter_of_le {c : UInt8} (hc : 128 ≤ c.toNat) : escapeCharacter c = [c] := by
  refine if_neg ?_
  rintro (rfl | rfl | rfl | rfl) <;> exact absurd hc (by decide)

/-- **The engine reads what it or the host wrote.** -/
theorem unescape_escape (value : Bytes) : unescape (escape value) = .ok value := by
  rw [unescape, Percent.byteOfSigned_eq, escape_eq, Percent.decodeWith_encode (by decide)]

theorem not_mem_escape {separator : UInt8} (hsep : kept separator = false)
    (hpercent : separator ≠ Percent.percent) (hdigit : Percent.digit separator = none)
    (value : Bytes) : separator ∉ escape value := by
  rw [escape_eq]
  exact Percent.not_mem_encode hsep hpercent hdigit value

end IpcService

/-- **The host escapes characters as the engine escapes bytes.** -/
theorem utf8_escape (text : Text) : utf8 (IpcHost.escape text) = IpcService.escape (utf8 text) := by
  induction text with
  | nil => rfl
  | cons c rest ih =>
    have hc : utf8 (IpcHost.escapeCharacter c) =
        (String.utf8EncodeChar c).flatMap IpcService.escapeCharacter := by
      by_cases hspecial : c ∈ ['%', '\t', '\r', '\n']
      · simp only [List.mem_cons, List.not_mem_nil, or_false] at hspecial
        rcases hspecial with rfl | rfl | rfl | rfl <;> decide
      rw [IpcHost.escapeCharacter, if_neg hspecial, utf8_cons, show utf8 [] = [] from rfl,
        List.append_nil]
      by_cases hlt : c.toNat < 128
      · have hascii : ∀ n < 128, Char.ofNat n ∉ ['%', '\t', '\r', '\n'] →
            IpcService.escapeCharacter (UInt8.ofNat n) = [UInt8.ofNat n] := by decide +kernel
        have hescape := hascii c.toNat hlt (by rwa [Char.ofNat_toNat])
        rw [utf8EncodeChar_of_lt hlt, List.flatMap_singleton, hescape]
      · have hbytes : (String.utf8EncodeChar c).flatMap IpcService.escapeCharacter =
            (String.utf8EncodeChar c).flatMap fun b => [b] :=
          List.flatMap_congr fun b hb =>
            IpcService.escapeCharacter_of_le (le_of_mem_utf8EncodeChar (not_lt.mp hlt) hb)
        rw [hbytes, List.flatMap_singleton']
    rw [IpcHost.escape, List.flatMap_cons, utf8_append, hc, utf8_cons, IpcService.escape,
      List.flatMap_append]
    exact congrArg _ ih

theorem intercalate_cons {α : Type} (separator : List α) (a : List α) (rest : List (List α)) :
    separator.intercalate (a :: rest) = a ++ rest.flatMap (separator ++ ·) := by
  induction rest generalizing a with
  | nil => simp
  | cons b rest ih =>
    rw [List.intercalate_cons_cons, ih, List.flatMap_cons, List.append_assoc, List.append_assoc]

/-! ## The host -/

namespace IpcHost

/-- **The host reads what it or the engine wrote.** -/
theorem unescape_escape (text : Text) : unescape (escape text) = .ok text := by
  have hdecode : Percent.decodeWith Percent.byteOfShifted "IPC escape is truncated"
      "IPC escape is invalid" (utf8 (escape text)) = .ok (utf8 text) := by
    rw [utf8_escape, IpcService.escape_eq, Percent.byteOfShifted_eq,
      Percent.decodeWith_encode (by decide)]
  rw [unescape, hdecode]
  show (match fromUtf8 (utf8 text) with
    | some text => pure text
    | none => throw "IPC field is not UTF-8" : Except String Text) = _
  rw [fromUtf8_utf8]
  rfl

theorem utf8_tab : String.utf8EncodeChar '\t' = ['\t'.toUInt8] := by decide

theorem utf8_tag : utf8 tag = Percent.encode kept (utf8 tag) := by decide +kernel

theorem utf8_message (command : Text) (args : List Text) : utf8 (message command args) =
    ['\t'.toUInt8].intercalate
      (((tag :: command :: args).map utf8).map (Percent.encode kept)) := by
  have hargs : utf8 (args.flatMap fun argument => '\t' :: escape argument) =
      ((args.map utf8).map (Percent.encode kept)).flatMap (['\t'.toUInt8] ++ ·) := by
    rw [List.map_map, List.flatMap_map, utf8, List.flatMap_assoc]
    refine List.flatMap_congr fun argument _ => ?_
    rw [← IpcService.escape_eq, Function.comp_apply, ← utf8_escape, List.flatMap_cons, utf8_tab]
    rfl
  have htab : utf8 ['\t'] = ['\t'.toUInt8] := by decide
  calc utf8 (message command args)
      = utf8 tag ++ ['\t'.toUInt8] ++ IpcService.escape (utf8 command) ++
          ((args.map utf8).map (Percent.encode kept)).flatMap (['\t'.toUInt8] ++ ·) := by
        rw [message, utf8_append, utf8_append, utf8_append, htab, hargs, utf8_escape]
    _ = Percent.encode kept (utf8 tag) ++ ['\t'.toUInt8] ++
          ['\t'.toUInt8].intercalate (((command :: args).map utf8).map (Percent.encode kept)) := by
        rw [← utf8_tag, List.map_cons, List.map_cons, intercalate_cons, IpcService.escape_eq,
          List.append_assoc _ _ (List.flatMap _ _)]
    _ = _ := by simp only [List.map_cons, List.intercalate_cons_cons]

end IpcHost

/-- **The engine finds the command and its arguments again.**  Even empty arguments, and arguments
with the separators of both kinds in them. -/
theorem fields_message (command : Text) (args : List Text) :
    IpcService.fields (utf8 (IpcHost.message command args)) =
      .ok ((IpcHost.tag :: command :: args).map utf8) := by
  have hall : ∀ texts : List Bytes,
      (texts.map (Percent.encode kept)).mapM IpcService.unescape = .ok texts := by
    intro texts
    induction texts with
    | nil => rfl
    | cons text rest ih =>
      rw [List.map_cons, List.mapM_cons, ih, ← IpcService.escape_eq, IpcService.unescape_escape]
      rfl
  rw [IpcService.fields, IpcHost.utf8_message,
    Percent.splitFields_join (by decide) (by decide) (by decide) (by simp), hall]

/-! ## UTF-16 -/

theorem utf16_append (a b : Text) : utf16 (a ++ b) = utf16 a ++ utf16 b := List.flatMap_append

theorem utf16_cons (c : Char) (rest : Text) : utf16 (c :: rest) = utf16Char c ++ utf16 rest :=
  List.flatMap_cons

theorem utf16Char_of_lt {c : Char} (hc : c.toNat < 128) :
    utf16Char c = [UInt16.ofNat c.toNat] := if_pos (by omega)

theorem toNat_ofNat {n : Nat} (h : n < 65536) : (UInt16.ofNat n).toNat = n := by
  rw [UInt16.toNat_ofNat']
  exact Nat.mod_eq_of_lt h

/-- A character above ASCII has no code unit of ASCII. -/
theorem le_of_mem_utf16Char {c : Char} (hc : 128 ≤ c.toNat) {u : UInt16} (hu : u ∈ utf16Char c) :
    128 ≤ u.toNat := by
  have hunit : ∀ n, 128 ≤ n → n < 65536 → 128 ≤ (UInt16.ofNat n).toNat := by
    intro n hn hlt
    rwa [toNat_ofNat hlt]
  have hmax : c.toNat < 0x110000 := by
    rcases c.valid with h | h
    · exact lt_trans h (by decide)
    · exact h.2
  rw [utf16Char] at hu
  split at hu
  · rw [List.mem_singleton.mp hu]
    exact hunit _ hc (by omega)
  · rcases List.mem_cons.mp hu with rfl | hu
    · exact hunit _ (by omega) (by omega)
    · rw [List.mem_singleton.mp hu]
      exact hunit _ (by omega) (by omega)

/-- A character of ASCII that does not occur in a text does not occur in its code units. -/
theorem not_mem_utf16 {text : Text} {c : Char} (hc : c.toNat < 128) (h : c ∉ text) :
    UInt16.ofNat c.toNat ∉ utf16 text := by
  intro hmem
  obtain ⟨d, hd, hu⟩ := List.mem_flatMap.mp hmem
  by_cases hlt : d.toNat < 128
  · rw [utf16Char_of_lt hlt, List.mem_singleton] at hu
    have hnat := congrArg UInt16.toNat hu
    rw [toNat_ofNat (by omega), toNat_ofNat (by omega)] at hnat
    exact h (Char.toNat_inj.mp hnat ▸ hd)
  · have hle := le_of_mem_utf16Char (not_lt.mp hlt) hu
    rw [toNat_ofNat (by omega)] at hle
    omega

/-- The host leaves no separator in a text. -/
theorem IpcHost.not_mem_escape {c : Char} (hc : c ∈ ['\t', '\r', '\n']) (text : Text) :
    c ∉ IpcHost.escape text := by
  intro hmem
  obtain ⟨d, -, hd⟩ := List.mem_flatMap.mp hmem
  rw [IpcHost.escapeCharacter] at hd
  split at hd
  · rename_i hspecial
    simp only [List.mem_cons, List.not_mem_nil, or_false] at hspecial hc
    rcases hspecial with rfl | rfl | rfl | rfl <;> rcases hc with rfl | rfl | rfl <;>
      exact absurd hd (by decide)
  · rename_i hplain
    rw [List.mem_singleton] at hd
    subst hd
    exact hplain (List.mem_cons_of_mem _ hc)

/-! ## The pages -/

namespace IpcPage

theorem decodeField_cons_of_ne {u : UInt16} (hu : u ≠ 37) (rest : List UInt16) :
    decodeField (u :: rest) = u :: decodeField rest := by
  rw [decodeField.eq_def]
  exact if_neg hu

theorem decodeField_append {units : List UInt16} (h : ∀ u ∈ units, u ≠ 37) (rest : List UInt16) :
    decodeField (units ++ rest) = units ++ decodeField rest := by
  induction units with
  | nil => rfl
  | cons u units ih =>
    rw [List.cons_append, decodeField_cons_of_ne (h u List.mem_cons_self),
      ih fun v hv => h v (List.mem_cons_of_mem u hv), List.cons_append]

/-- **The pages read what the engine or the host wrote.** -/
theorem decodeField_escape (text : Text) :
    decodeField (utf16 (IpcHost.escape text)) = utf16 text := by
  induction text with
  | nil => rfl
  | cons c rest ih =>
    have hrest : utf16 (IpcHost.escape (c :: rest)) =
        utf16 (IpcHost.escapeCharacter c) ++ utf16 (IpcHost.escape rest) := by
      rw [IpcHost.escape, List.flatMap_cons, utf16_append]
      rfl
    rw [hrest, utf16_cons, ← ih]
    by_cases hspecial : c ∈ ['%', '\t', '\r', '\n']
    · simp only [List.mem_cons, List.not_mem_nil, or_false] at hspecial
      rcases hspecial with rfl | rfl | rfl | rfl
      · rw [show utf16 (IpcHost.escapeCharacter '%') = [37, 50, 53] by decide]
        rfl
      · rw [show utf16 (IpcHost.escapeCharacter '\t') = [37, 48, 57] by decide]
        rfl
      · rw [show utf16 (IpcHost.escapeCharacter '\r') = [37, 48, 68] by decide]
        rfl
      · rw [show utf16 (IpcHost.escapeCharacter '\n') = [37, 48, 65] by decide]
        rfl
    · rw [IpcHost.escapeCharacter, if_neg hspecial, utf16_cons, show utf16 [] = [] from rfl,
        List.append_nil]
      have hpercent : (37 : UInt16) ∉ utf16 [c] :=
        not_mem_utf16 (show '%'.toNat < 128 by decide) fun hmem =>
          hspecial (List.mem_singleton.mp hmem ▸ List.mem_cons_self)
      rw [utf16_cons, show utf16 [] = [] from rfl, List.append_nil] at hpercent
      refine decodeField_append (fun u hu => ?_) _
      rintro rfl
      exact hpercent hu

theorem splitLines_cons_of_ne {u : UInt16} (h13 : u ≠ 13) (h10 : u ≠ 10) (rest : List UInt16) :
    splitLines (u :: rest) = (splitLines rest).modifyHead (u :: ·) := by
  rw [splitLines]
  · intro rest' h
    exact absurd h h13
  · intro h
    exact absurd h h10

/-- A line without line breaks in it ends where its line break is. -/
theorem splitLines_line {line : List UInt16} (h13 : 13 ∉ line) (h10 : 10 ∉ line)
    (rest : List UInt16) : splitLines (line ++ 10 :: rest) = line :: splitLines rest := by
  induction line with
  | nil =>
    rw [List.nil_append, splitLines]
  | cons u line ih =>
    rw [List.mem_cons, not_or] at h13 h10
    rw [List.cons_append, splitLines_cons_of_ne (Ne.symm h13.1) (Ne.symm h10.1),
      ih h13.2 h10.2, List.modifyHead_cons]

theorem splitLines_lines {lines : List (List UInt16)} (h13 : ∀ line ∈ lines, 13 ∉ line)
    (h10 : ∀ line ∈ lines, 10 ∉ line) (rest : List UInt16) :
    splitLines (lines.flatMap (· ++ [10]) ++ rest) = lines ++ splitLines rest := by
  induction lines with
  | nil => rfl
  | cons line lines ih =>
    rw [List.flatMap_cons, List.append_assoc, List.append_assoc, List.singleton_append,
      splitLines_line (h13 _ List.mem_cons_self) (h10 _ List.mem_cons_self),
      ih (fun l hl => h13 l (List.mem_cons_of_mem _ hl)) fun l hl =>
        h10 l (List.mem_cons_of_mem _ hl), List.cons_append]

end IpcPage

/-! ## Rows

A response with several rows is a text again, so the pages need to be followed through one text
only: the lines of the response are its rows, and the cells of a row are the pieces between its
tabs.  Both hold because no escaped cell contains a tab or a line break. -/

theorem flatMap_intercalate {α β : Type} (f : α → List β) (separator : List α)
    (l : List (List α)) :
    (separator.intercalate l).flatMap f =
      (separator.flatMap f).intercalate (l.map (List.flatMap f)) := by
  cases l with
  | nil => rfl
  | cons a rest =>
    rw [intercalate_cons, List.map_cons, intercalate_cons, List.flatMap_append, List.flatMap_map,
      List.flatMap_assoc]
    simp only [List.flatMap_append]

/-- A row as a text, without its line break. -/
def rowText (cells : List Text) : Text :=
  ['R', 'O', 'W', '\t'] ++ ['\t'].intercalate (cells.map IpcHost.escape)

/-- A response with rows as a text. -/
def rowsText (table : List (List Text)) : Text :=
  table.flatMap (fun cells => rowText cells ++ ['\n']) ++ ['E', 'N', 'D', '\n']

theorem utf8_rowText (cells : List Text) :
    utf8 (rowText cells ++ ['\n']) = IpcService.row (cells.map utf8) := by
  have htag : utf8 ['R', 'O', 'W', '\t'] = ascii "ROW\t" := by decide
  have hend : utf8 ['\n'] = ascii "\n" := by decide
  have hcells : utf8 (['\t'].intercalate (cells.map IpcHost.escape)) =
      ['\t'.toUInt8].intercalate ((cells.map utf8).map IpcService.escape) := by
    rw [utf8, flatMap_intercalate, List.map_map, List.map_map]
    refine congrArg₂ _ (by decide) (List.map_congr_left fun cell _ => ?_)
    exact utf8_escape cell
  rw [rowText, utf8_append, utf8_append, htag, hend, hcells, IpcService.row]

theorem utf8_rowsText (table : List (List Text)) :
    utf8 (rowsText table) = IpcService.rows (table.map (List.map utf8)) := by
  have hend : utf8 ['E', 'N', 'D', '\n'] = ascii "END\n" := by decide
  rw [rowsText, utf8_append, hend, IpcService.rows, List.flatMap_map, utf8, List.flatMap_assoc]
  exact congrArg (· ++ ascii "END\n") (List.flatMap_congr fun cells _ => utf8_rowText cells)

namespace IpcPage

/-- The code units of a row. -/
theorem utf16_rowText (cells : List Text) : utf16 (rowText cells) =
    rowTag ++ [9].intercalate (cells.map fun cell => utf16 (IpcHost.escape cell)) := by
  have hcells : utf16 (['\t'].intercalate (cells.map IpcHost.escape)) =
      [9].intercalate (cells.map fun cell => utf16 (IpcHost.escape cell)) := by
    rw [utf16, flatMap_intercalate, List.map_map]
    rfl
  rw [rowText, utf16_append, hcells]
  rfl

/-- **The cells of a row are found again.** -/
theorem splitOn_rowText {cells : List Text} (hne : cells ≠ []) :
    (((utf16 (rowText cells)).splitOn 9).drop 1).map decodeField = cells.map utf16 := by
  obtain ⟨a, rest, rfl⟩ := List.exists_cons_of_ne_nil hne
  have htag : rowTag = [82, 79, 87] ++ [9] := by decide
  have hjoin : utf16 (rowText (a :: rest)) = [9].intercalate
      ([82, 79, 87] :: (a :: rest).map fun cell => utf16 (IpcHost.escape cell)) := by
    rw [utf16_rowText, htag, List.map_cons, List.intercalate_cons_cons]
  rw [hjoin, List.splitOn_intercalate 9 _ (List.cons_ne_nil _ _), List.drop_one, List.tail_cons,
    List.map_map]
  · exact List.map_congr_left fun cell _ => decodeField_escape cell
  · intro field hfield
    rcases List.mem_cons.mp hfield with rfl | hfield
    · decide
    · obtain ⟨cell, -, rfl⟩ := List.mem_map.mp hfield
      exact not_mem_utf16 (show '\t'.toNat < 128 by decide)
        (IpcHost.not_mem_escape (by decide) cell)

end IpcPage

theorem mem_intercalate {α : Type} {separator : List α} {l : List (List α)} {x : α}
    (h : x ∈ separator.intercalate l) : x ∈ separator ∨ ∃ a ∈ l, x ∈ a := by
  cases l with
  | nil => cases h
  | cons a rest =>
    rw [intercalate_cons, List.mem_append] at h
    rcases h with h | h
    · exact .inr ⟨a, List.mem_cons_self, h⟩
    · obtain ⟨b, hb, h⟩ := List.mem_flatMap.mp h
      rcases List.mem_append.mp h with h | h
      · exact .inl h
      · exact .inr ⟨b, List.mem_cons_of_mem _ hb, h⟩

/-- A row is one line. -/
theorem not_mem_rowText {c : Char} (hc : c ∈ ['\r', '\n']) (cells : List Text) :
    c ∉ rowText cells := by
  have hne : c ∉ ['R', 'O', 'W', '\t'] := by
    simp only [List.mem_cons, List.not_mem_nil, or_false] at hc
    rcases hc with rfl | rfl <;> decide
  intro hmem
  rcases List.mem_append.mp hmem with h | h
  · exact hne h
  rcases mem_intercalate h with h | ⟨escaped, hescaped, h⟩
  · obtain rfl := List.mem_singleton.mp h
    exact absurd hc (by decide)
  · obtain ⟨cell, -, rfl⟩ := List.mem_map.mp hescaped
    exact IpcHost.not_mem_escape (List.mem_cons_of_mem _ hc) cell h

namespace IpcPage

/-- **The pages find every row again.**  Cells may contain line breaks, which are escaped, and the
pages split at the others. -/
theorem frameRows_rowsText {table : List (List Text)} (hne : ∀ cells ∈ table, cells ≠ []) :
    frameRows (utf16 (rowsText table)) = table.map (List.map utf16) := by
  have hreply : utf16 (rowsText table) =
      (table.map (fun cells => utf16 (rowText cells)) ++ [[69, 78, 68]]).flatMap (· ++ [10]) ++
        [] := by
    rw [rowsText, utf16_append, utf16, List.flatMap_assoc, List.flatMap_append, List.flatMap_map,
      List.append_nil]
    refine congrArg₂ _ (List.flatMap_congr fun cells _ => ?_) (by decide)
    exact utf16_append _ _
  -- no cell holds a line end, so the lines of the reply are its rows and the closing word
  have hlines : ∀ c ∈ ['\r', '\n'],
      ∀ line ∈ table.map (fun cells => utf16 (rowText cells)) ++ [[69, 78, 68]],
        UInt16.ofNat c.toNat ∉ line := by
    intro c hc line hline
    rcases List.mem_append.mp hline with hline | hline
    · obtain ⟨cells, -, rfl⟩ := List.mem_map.mp hline
      have hlt : c.toNat < 128 := by
        simp only [List.mem_cons, List.not_mem_nil, or_false] at hc
        rcases hc with rfl | rfl <;> decide
      exact not_mem_utf16 hlt (not_mem_rowText hc cells)
    · rw [List.mem_singleton.mp hline]
      simp only [List.mem_cons, List.not_mem_nil, or_false] at hc
      rcases hc with rfl | rfl <;> decide
  have htag : ∀ cells, rowTag <+: utf16 (rowText cells) := fun cells =>
    utf16_rowText cells ▸ List.prefix_append _ _
  have hnonempty : ∀ line ∈ table.map (fun cells => utf16 (rowText cells)) ++ [[69, 78, 68]],
      line ≠ [] := by
    rintro line hline rfl
    rcases List.mem_append.mp hline with hline | hline
    · obtain ⟨cells, -, hcells⟩ := List.mem_map.mp hline
      exact absurd (hcells ▸ htag cells) (by decide)
    · exact absurd (List.mem_singleton.mp hline) (List.cons_ne_nil _ _).symm
  have hframes : frameLines (utf16 (rowsText table)) =
      table.map (fun cells => utf16 (rowText cells)) ++ [[69, 78, 68]] := by
    rw [frameLines, hreply, splitLines_lines (hlines '\r' (by decide)) (hlines '\n' (by decide)),
      splitLines, List.filter_append]
    rw [List.filter_eq_self.mpr fun line hline => decide_eq_true (hnonempty line hline)]
    exact List.append_nil _
  have hrows : (table.map (fun cells => utf16 (rowText cells)) ++ [[69, 78, 68]]).filter
      (fun line => rowTag <+: line) = table.map fun cells => utf16 (rowText cells) := by
    rw [List.filter_append, List.filter_eq_self.mpr]
    · exact List.append_nil _
    · intro line hline
      obtain ⟨cells, -, rfl⟩ := List.mem_map.mp hline
      exact decide_eq_true (htag cells)
  rw [frameRows, hframes, hrows, List.map_map]
  exact List.map_congr_left fun cells hcells => splitOn_rowText (hne cells hcells)

end IpcPage

/-! ## The two directions -/

/-- **The frames of the pipe.**  The engine finds the tag, the command and the arguments of every
request.  What the engine escapes is a text without tabs and line breaks, which the host and the
pages turn back into the one it was, and so does the engine.  A response with any rows, of one cell
or more each, is a text in which the pages find exactly these rows and cells. -/
theorem ipc_framing :
    (∀ command args, IpcService.fields (utf8 (IpcHost.message command args)) =
      .ok (utf8 "VSYNC_IPC/1".toList :: utf8 command :: args.map utf8)) ∧
    (∀ text, ∃ escaped, fromUtf8 (IpcService.escape (utf8 text)) = some escaped ∧
      (∀ c ∈ ['\t', '\r', '\n'], c ∉ escaped ∧ c.toUInt8 ∉ IpcService.escape (utf8 text)) ∧
      IpcHost.unescape escaped = .ok text ∧
      IpcPage.decodeField (utf16 escaped) = utf16 text ∧
      IpcService.unescape (IpcService.escape (utf8 text)) = .ok (utf8 text)) ∧
    (∀ table : List (List Text), (∀ cells ∈ table, cells ≠ []) →
      ∃ reply, fromUtf8 (IpcService.rows (table.map (List.map utf8))) = some reply ∧
        IpcPage.frameRows (utf16 reply) = table.map (List.map utf16)) := by
  refine ⟨fun command args => fields_message command args, fun text => ?_, fun table hne => ?_⟩
  · refine ⟨IpcHost.escape text, ?_, fun c hc => ⟨IpcHost.not_mem_escape hc text, ?_⟩,
      IpcHost.unescape_escape text, IpcPage.decodeField_escape text,
      IpcService.unescape_escape _⟩
    · rw [← utf8_escape, fromUtf8_utf8]
    · simp only [List.mem_cons, List.not_mem_nil, or_false] at hc
      rcases hc with rfl | rfl | rfl <;>
        exact IpcService.not_mem_escape (by decide) (by decide) (by decide) _
  · refine ⟨rowsText table, ?_, IpcPage.frameRows_rowsText hne⟩
    rw [← utf8_rowsText, fromUtf8_utf8]

end VeritasSync
