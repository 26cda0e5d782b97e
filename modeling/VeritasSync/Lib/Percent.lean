import Mathlib

/-!
# Escaping with percent signs

A text is written so that some bytes do not occur in it: such a byte, and the percent sign itself,
becomes a percent sign and two hexadecimal digits.  `keep` says which bytes are written as they are.

Two things are wanted from such an escaping.  One is the round trip, and it depends on the percent
sign alone: whatever else is escaped or not, a text comes back.  The other is that the encoded text
can be put between separators, and it depends on the rest: a separator is a byte that is neither
kept nor used to write an escape.  Programs that share a channel may keep different bytes, so `keep`
is a parameter, and the two properties never assume more of it than they need.

## What is here

* `encode`, `decode` — the two directions; `decode_encode` says that one undoes the other, whatever
  `keep` keeps besides the percent sign.  `decodeWith` is the decoder of a program, which throws.
* `keep_or_escape_of_mem` — the bytes that occur in an encoded text.
* `escape_of_percent` — **in an encoded text every percent sign starts an escape**.
* `splitFields` — the loop that looks for the next separator; `splitFields_join` says that encoded
  texts with separators between them are split into what they were.
-/

set_option autoImplicit false

namespace Percent

/-- The byte that starts an escape. -/
def percent : UInt8 := '%'.toUInt8

/-- An uppercase digit. -/
def hexDigit (n : Nat) : UInt8 := if n < 10 then UInt8.ofNat (48 + n) else UInt8.ofNat (55 + n)

/-- The value of a digit, uppercase or lowercase. -/
def digit (c : UInt8) : Option Nat :=
  if '0'.toUInt8 ≤ c ∧ c ≤ '9'.toUInt8 then some (c.toNat - 48)
  else if 'a'.toUInt8 ≤ c ∧ c ≤ 'f'.toUInt8 then some (c.toNat - 87)
  else if 'A'.toUInt8 ≤ c ∧ c ≤ 'F'.toUInt8 then some (c.toNat - 55)
  else none

/-- What is written for one byte. -/
def unit (keep : UInt8 → Bool) (c : UInt8) : List UInt8 :=
  if keep c then [c] else [percent, hexDigit (c.toNat / 16), hexDigit (c.toNat % 16)]

/-- What is written for a text. -/
def encode (keep : UInt8 → Bool) (text : List UInt8) : List UInt8 := text.flatMap (unit keep)

/-- What is read; `none` is a malformed escape. -/
def decode : List UInt8 → Option (List UInt8)
  | [] => some []
  | c :: rest =>
    if c ≠ percent then (decode rest).map (c :: ·)
    else
      match rest with
      | high :: low :: rest => do
        let high ← digit high
        let low ← digit low
        (decode rest).map (UInt8.ofNat (16 * high + low) :: ·)
      | _ => none

/-- The byte that two digits stand for. -/
def byteOfDigits (high low : UInt8) : Option UInt8 := do
  let high ← digit high
  let low ← digit low
  some (UInt8.ofNat (16 * high + low))

/-! ## Decoders as programs have them

Programs do not return options.  One has a digit function with -1 in it and shifts, another one
works with bytes throughout, and each throws two different exceptions.  They are the same decoder,
and the lemmas about them say so once, over all 256 bytes, so that no other proof has to look at a
shift. -/

/-- `digit` as a function that returns -1 for what is no digit. -/
def signedDigit (c : UInt8) : Int :=
  if '0'.toUInt8 ≤ c ∧ c ≤ '9'.toUInt8 then c.toNat - 48
  else if 'A'.toUInt8 ≤ c ∧ c ≤ 'F'.toUInt8 then c.toNat - 65 + 10
  else if 'a'.toUInt8 ≤ c ∧ c ≤ 'f'.toUInt8 then c.toNat - 97 + 10
  else -1

/-- The byte of two such digits. -/
def byteOfSigned (high low : UInt8) : Option UInt8 :=
  if signedDigit high < 0 ∨ signedDigit low < 0 then none
  else some (UInt8.ofNat ((signedDigit high).toNat <<< 4 ||| (signedDigit low).toNat))

/-- `digit` in arithmetic of bytes. -/
def byteDigit (c : UInt8) : Option UInt8 :=
  if '0'.toUInt8 ≤ c ∧ c ≤ '9'.toUInt8 then some (c - '0'.toUInt8)
  else if 'a'.toUInt8 ≤ c ∧ c ≤ 'f'.toUInt8 then some (c - 'a'.toUInt8 + 10)
  else if 'A'.toUInt8 ≤ c ∧ c ≤ 'F'.toUInt8 then some (c - 'A'.toUInt8 + 10)
  else none

/-- The byte of two such digits. -/
def byteOfShifted (high low : UInt8) : Option UInt8 := do
  let high ← byteDigit high
  let low ← byteDigit low
  some (high <<< 4 ||| low)

/-- A decoder with two exceptions, one for an escape without its two digits and one for digits that
are none.  `value` is the byte of two digits. -/
def decodeWith {ε : Type} (value : UInt8 → UInt8 → Option UInt8) (truncated invalid : ε) :
    List UInt8 → Except ε (List UInt8)
  | [] => .ok []
  | c :: rest =>
    if c ≠ percent then (decodeWith value truncated invalid rest).map (c :: ·)
    else
      match rest with
      | high :: low :: rest =>
        match value high low with
        | some byte => (decodeWith value truncated invalid rest).map (byte :: ·)
        | none => .error invalid
      | _ => .error truncated

variable {keep : UInt8 → Bool}

@[simp] theorem encode_nil : encode keep [] = [] := rfl

theorem encode_cons (c : UInt8) (rest : List UInt8) :
    encode keep (c :: rest) = unit keep c ++ encode keep rest := List.flatMap_cons

theorem digit_hexDigit : ∀ n < 16, digit (hexDigit n) = some n := by decide

theorem hexDigit_ne_percent : ∀ n < 16, hexDigit n ≠ percent := by decide

/-! ## Round trip -/

theorem decode_cons_of_ne {c : UInt8} (hne : c ≠ percent) (rest : List UInt8) :
    decode (c :: rest) = (decode rest).map (c :: ·) := by
  rw [decode.eq_def (c :: rest)]
  exact if_pos hne

theorem decode_escape (c : UInt8) (rest : List UInt8) :
    decode (percent :: hexDigit (c.toNat / 16) :: hexDigit (c.toNat % 16) :: rest) =
      (decode rest).map (c :: ·) := by
  have hlt := c.toNat_lt
  have hc : UInt8.ofNat (16 * (c.toNat / 16) + c.toNat % 16) = c := by
    rw [show 16 * (c.toNat / 16) + c.toNat % 16 = c.toNat by omega, UInt8.ofNat_toNat]
  rw [decode, if_neg (not_not.mpr rfl)]
  simp only [digit_hexDigit _ (show c.toNat / 16 < 16 by omega),
    digit_hexDigit _ (show c.toNat % 16 < 16 by omega), bind, Option.bind, hc]

theorem decode_unit_append (hkeep : keep percent = false) (c : UInt8) (rest : List UInt8) :
    decode (unit keep c ++ rest) = (decode rest).map (c :: ·) := by
  rw [unit]
  split
  · rename_i hc
    have hne : c ≠ percent := by
      rintro rfl
      rw [hkeep] at hc
      cases hc
    exact decode_cons_of_ne hne rest
  · exact decode_escape c rest

/-- **What was written is read.**  The only thing asked of `keep` is that the percent sign is not
kept. -/
theorem decode_encode (hkeep : keep percent = false) (text : List UInt8) :
    decode (encode keep text) = some text := by
  induction text with
  | nil => rfl
  | cons c rest ih =>
    rw [encode_cons, decode_unit_append hkeep, ih]
    rfl

section DecodeWith

variable {ε : Type} {value : UInt8 → UInt8 → Option UInt8} {truncated invalid : ε}

theorem decodeWith_cons_of_ne {c : UInt8} (hne : c ≠ percent) (rest : List UInt8) :
    decodeWith value truncated invalid (c :: rest) =
      (decodeWith value truncated invalid rest).map (c :: ·) := by
  rw [decodeWith.eq_def _ _ _ (c :: rest)]
  exact if_pos hne

theorem decodeWith_escape (high low : UInt8) (rest : List UInt8) :
    decodeWith value truncated invalid (percent :: high :: low :: rest) =
      (value high low).elim (.error invalid) fun byte =>
        (decodeWith value truncated invalid rest).map (byte :: ·) := by
  rw [decodeWith, if_neg (not_not.mpr rfl)]
  cases value high low <;> rfl

/-- A decoder that throws returns what `decode` does, and throws where `decode` does not. -/
theorem decodeWith_eq_elim (truncated invalid : ε) (text : List UInt8) :
    ∃ e, (e = truncated ∨ e = invalid) ∧
      decodeWith byteOfDigits truncated invalid text = (decode text).elim (.error e) .ok := by
  have hmap : ∀ (c : UInt8) (e : ε) (y : Option (List UInt8)),
      (y.elim (.error e) .ok : Except ε (List UInt8)).map (c :: ·) =
        (y.map (c :: ·)).elim (.error e) .ok := by
    intro c e y
    cases y <;> rfl
  fun_induction decode text with
  | case1 => exact ⟨truncated, .inl rfl, rfl⟩
  | case2 c rest hne ih =>
    obtain ⟨e, he, hrest⟩ := ih
    exact ⟨e, he, by rw [decodeWith_cons_of_ne hne, hrest, hmap]⟩
  | case3 c hpercent high low rest ih =>
    obtain ⟨e, he, hrest⟩ := ih
    obtain rfl := not_not.mp hpercent
    rw [decodeWith_escape, byteOfDigits, hrest]
    cases digit high with
    | none => exact ⟨invalid, .inr rfl, rfl⟩
    | some h =>
      cases digit low with
      | none => exact ⟨invalid, .inr rfl, rfl⟩
      | some l => exact ⟨e, he, hmap _ e _⟩
  | case4 c rest hpercent hshort =>
    obtain rfl := not_not.mp hpercent
    refine ⟨truncated, .inl rfl, ?_⟩
    rcases rest with _ | ⟨high, _ | ⟨low, rest⟩⟩
    · rfl
    · rfl
    · exact absurd rfl (hshort high low rest)

/-- What holds of the 256 bytes holds of every byte. -/
theorem byte_forall (P : UInt8 → Prop) (h : ∀ n < 256, P (UInt8.ofNat n)) (c : UInt8) : P c := by
  have hc := h c.toNat c.toNat_lt
  rwa [UInt8.ofNat_toNat] at hc

/-- The digits that are read are hexadecimal. -/
theorem digit_lt {c : UInt8} {n : Nat} (h : digit c = some n) : n < 16 := by
  have hc := byte_forall (fun c => (digit c).all (· < 16) = true) (by decide +kernel) c
  rw [h] at hc
  exact of_decide_eq_true hc

theorem byteOfSigned_eq : byteOfSigned = byteOfDigits := by
  have hdigit := byte_forall (fun c => signedDigit c = (digit c).elim (-1) Int.ofNat)
    (by decide +kernel)
  have hbyte : ∀ h < 16, ∀ l < 16,
      UInt8.ofNat ((Int.ofNat h).toNat <<< 4 ||| (Int.ofNat l).toNat) =
        UInt8.ofNat (16 * h + l) := by decide +kernel
  funext high low
  rw [byteOfSigned, byteOfDigits, hdigit, hdigit]
  cases hhigh : digit high with
  | none => exact if_pos (.inl (by decide))
  | some h =>
    cases hlow : digit low with
    | none => exact if_pos (.inr (by decide))
    | some l =>
      rw [Option.elim_some, Option.elim_some, if_neg (by simp), hbyte h (digit_lt hhigh) l
        (digit_lt hlow)]
      rfl

theorem byteOfShifted_eq : byteOfShifted = byteOfDigits := by
  have hdigit := byte_forall (fun c => byteDigit c = (digit c).map UInt8.ofNat) (by decide +kernel)
  have hbyte : ∀ h < 16, ∀ l < 16, UInt8.ofNat h <<< 4 ||| UInt8.ofNat l =
      UInt8.ofNat (16 * h + l) := by decide +kernel
  funext high low
  rw [byteOfShifted, byteOfDigits, hdigit, hdigit]
  cases hhigh : digit high with
  | none => rfl
  | some h =>
    cases hlow : digit low with
    | none => rfl
    | some l => exact congrArg some (hbyte h (digit_lt hhigh) l (digit_lt hlow))

/-- **What was written is read** by a decoder that throws. -/
theorem decodeWith_encode (hkeep : keep percent = false) (text : List UInt8) :
    decodeWith byteOfDigits truncated invalid (encode keep text) = .ok text := by
  obtain ⟨e, -, hrun⟩ := decodeWith_eq_elim truncated invalid (encode keep text)
  rw [hrun, decode_encode hkeep]
  rfl

end DecodeWith

/-! ## What an encoded text is made of -/

theorem keep_or_escape_of_mem {text : List UInt8} {c : UInt8} (h : c ∈ encode keep text) :
    keep c = true ∨ c = percent ∨ ∃ n < 16, c = hexDigit n := by
  obtain ⟨x, -, hx⟩ := List.mem_flatMap.mp h
  have hlt := x.toNat_lt
  rw [unit] at hx
  split at hx
  · rename_i hkeep
    rw [List.mem_singleton.mp hx]
    exact .inl hkeep
  · rcases List.mem_cons.mp hx with rfl | hx
    · exact .inr (.inl rfl)
    rcases List.mem_cons.mp hx with rfl | hx
    · exact .inr (.inr ⟨_, by omega, rfl⟩)
    · rw [List.mem_singleton.mp hx]
      exact .inr (.inr ⟨_, by omega, rfl⟩)

/-- **Every percent sign starts an escape.**  Nothing that was written can be mistaken for an escape
that was not. -/
theorem escape_of_percent (hkeep : keep percent = false) {text before after : List UInt8}
    (h : encode keep text = before ++ percent :: after) :
    ∃ high low rest, after = high :: low :: rest ∧ (digit high).isSome = true ∧
      (digit low).isSome = true := by
  induction text generalizing before with
  | nil => exact absurd h.symm (List.append_ne_nil_of_right_ne_nil _ (List.cons_ne_nil _ _))
  | cons c rest ih =>
    have hlt := c.toNat_lt
    have hhigh := digit_hexDigit (c.toNat / 16) (by omega)
    have hlow := digit_hexDigit (c.toNat % 16) (by omega)
    rw [encode_cons, unit] at h
    split at h
    · rename_i hc
      -- the byte is kept, so it is not the percent sign that was found
      cases before with
      | nil =>
        rw [(List.cons.inj h).1, hkeep] at hc
        cases hc
      | cons b before => exact ih (List.cons.inj h).2
    · cases before with
      | nil =>
        refine ⟨_, _, _, (List.cons.inj h).2.symm, ?_, ?_⟩
        · rw [hhigh]
          rfl
        · rw [hlow]
          rfl
      | cons b before =>
        have h := (List.cons.inj h).2
        -- neither digit is the percent sign that was found
        cases before with
        | nil => exact absurd (List.cons.inj h).1 (hexDigit_ne_percent _ (by omega))
        | cons b before =>
          have h := (List.cons.inj h).2
          cases before with
          | nil => exact absurd (List.cons.inj h).1 (hexDigit_ne_percent _ (by omega))
          | cons b before => exact ih (List.cons.inj h).2

/-! ## Fields

A loop that finds the next separator and cuts there, as one would write it with `find` and `substr`.
On texts that were encoded and joined it gives back the pieces, because none of them contains the
separator. -/

/-- What comes before the next separator, and so on for the rest; without a separator the rest is
the last field. -/
def splitFields (separator : UInt8) (text : List UInt8) : List (List UInt8) :=
  match _h : text.dropWhile (· ≠ separator) with
  | [] => [text]
  | _ :: rest => text.takeWhile (· ≠ separator) :: splitFields separator rest
  termination_by text.length
  decreasing_by
    have hle := (List.dropWhile_sublist (· ≠ separator) (l := text)).length_le
    rw [_h, List.length_cons] at hle
    omega

theorem splitFields_eq_splitOn (separator : UInt8) (text : List UInt8) :
    splitFields separator text = text.splitOn separator := by
  induction text using splitFields.induct separator with
  | case1 text hnone =>
    have hmem : separator ∉ text := fun hmem => by
      have hstop := List.dropWhile_eq_nil_iff.mp hnone separator hmem
      simp at hstop
    rw [splitFields.eq_def, List.splitOn_eq_singleton hmem]
    split
    · rfl
    · rename_i c rest hsome
      rw [hnone] at hsome
      cases hsome
  | case2 text c rest hsome ih =>
    obtain rfl : c = separator := by
      have hcons : text.dropWhile (· ≠ separator) ≠ [] := by
        rw [hsome]
        exact List.cons_ne_nil c rest
      have hhead := List.head_dropWhile_not (· ≠ separator) hcons
      simp only [hsome, List.head_cons] at hhead
      simpa using hhead
    have hmem : c ∉ text.takeWhile (· ≠ c) := fun hmem => by
      simpa using List.mem_takeWhile_imp hmem
    have htext : text = text.takeWhile (· ≠ c) ++ c :: rest := by
      rw [← hsome, List.takeWhile_append_dropWhile]
    rw [splitFields.eq_def]
    split
    · rename_i hnone
      rw [hnone] at hsome
      cases hsome
    · rename_i c' rest' hsome'
      rw [hsome] at hsome'
      obtain ⟨rfl, rfl⟩ := List.cons.inj hsome'
      conv_rhs => rw [htext]
      rw [List.splitOn_append_cons_self_of_not_mem hmem, ih]

/-- A separator that is not kept does not occur in a field. -/
theorem not_mem_encode {separator : UInt8} (hsep : keep separator = false)
    (hpercent : separator ≠ percent) (hdigit : digit separator = none) (text : List UInt8) :
    separator ∉ encode keep text := by
  intro hmem
  rcases keep_or_escape_of_mem hmem with h | h | ⟨n, hn, rfl⟩
  · rw [hsep] at h
    cases h
  · exact hpercent h
  · rw [digit_hexDigit n hn] at hdigit
    cases hdigit

/-- **Fields with separators between them are split into what they were.**  Empty fields count as
fields; only a line without any field is read as one empty one. -/
theorem splitFields_join {separator : UInt8} (hsep : keep separator = false)
    (hpercent : separator ≠ percent) (hdigit : digit separator = none)
    {texts : List (List UInt8)} (hne : texts ≠ []) :
    splitFields separator ([separator].intercalate (texts.map (encode keep))) =
      texts.map (encode keep) := by
  rw [splitFields_eq_splitOn]
  refine List.splitOn_intercalate separator (fun field hfield => ?_) (by simpa using hne)
  obtain ⟨text, -, rfl⟩ := List.mem_map.mp hfield
  exact not_mem_encode hsep hpercent hdigit text

end Percent
