import VeritasSync.Lib.Exec

/-!
# Readers and writers of a binary format

A writer appends to what has been written, and may refuse a value; a reader takes what it
understands from the front of the input, and may refuse the input.  Both are `Exec` computations
over the list of symbols.

A format is canonical when every accepted input has exactly one spelling.  `Reads` says that of a
reader, by an equivalence: it returns `a` and leaves `rest` if and only if `a` is admissible and the
input is the spelling of `a` followed by `rest`.  `Writes` is its counterpart.  Both compose along
`>>=`, so a format that is read field by field is canonical when its fields are.

The direction from the input to the value is the one that takes care.  That a reader returns what a
writer wrote is a matter of running both; that it returns nothing for any other input needs every
check of the reader, and a missing one shows up as an equivalence that cannot be proved.  An
equivalence is also what rewrites: a proof about a reader of ten fields is ten rewrites with
`Reads.bind_iff` and a rearrangement of the conditions at the end.
-/

set_option autoImplicit false

namespace Codec

variable {σ ε α β : Type}

/-- A computation that takes symbols from the front of the input. -/
abbrev Reader (σ ε α : Type) := Exec (List σ) ε α

/-- A computation that appends to the output. -/
abbrev Writer (σ ε α : Type) := Exec (List σ) ε α

/-- The reader accepts exactly the spellings `enc a` of the admissible values. -/
def Reads (r : Reader σ ε α) (enc : α → List σ) (ok : α → Prop) : Prop :=
  ∀ b a rest, r b = (.ok a, rest) ↔ ok a ∧ b = enc a ++ rest

/-- The writer appends `out`, or refuses. -/
def Writes (w : Writer σ ε Unit) (ok : Prop) (out : List σ) : Prop :=
  ∀ b b', w b = (.ok (), b') ↔ ok ∧ b' = b ++ out

/-- The output of a writer. -/
def written (w : Writer σ ε Unit) : Except ε (List σ) :=
  match w [] with
  | (.ok (), out) => .ok out
  | (.error e, _) => .error e

/-- The value a reader finds. -/
def readFrom (r : Reader σ ε α) (input : List σ) : Except ε α := (r input).1

/-! ## Sequences -/

theorem bind_ok_iff {σ ε α β : Type} {m : Exec σ ε α} {f : α → Exec σ ε β} {s s'' : σ} {b : β} :
    (m >>= f) s = (.ok b, s'') ↔ ∃ a s', m s = (.ok a, s') ∧ f a s' = (.ok b, s'') := by
  constructor
  · exact Exec.bind_eq_ok
  · rintro ⟨a, s', hm, hf⟩
    rw [Exec.bind_apply, hm]
    exact hf

section Reader

variable {r : Reader σ ε α} {enc : α → List σ} {ok : α → Prop}

/-- What a reader takes is the spelling of what it returns. -/
theorem Reads.bind_iff (hr : Reads r enc ok) {f : α → Reader σ ε β} {b rest : List σ} {c : β} :
    (r >>= f) b = (.ok c, rest) ↔ ∃ a, ok a ∧ ∃ tail, b = enc a ++ tail ∧
      f a tail = (.ok c, rest) := by
  rw [bind_ok_iff]
  constructor
  · rintro ⟨a, tail, hread, hf⟩
    obtain ⟨hok, hb⟩ := (hr b a tail).mp hread
    exact ⟨a, hok, tail, hb, hf⟩
  · rintro ⟨a, hok, tail, hb, hf⟩
    exact ⟨a, tail, (hr b a tail).mpr ⟨hok, hb⟩, hf⟩

theorem readFrom_iff {b : List σ} {a : α} :
    readFrom r b = .ok a ↔ ∃ rest, r b = (.ok a, rest) := by
  rw [readFrom]
  constructor
  · intro h
    exact ⟨(r b).2, by rw [← h]⟩
  · rintro ⟨rest, h⟩
    rw [h]

theorem pure_iff {a a' : α} {b rest : List σ} :
    (pure a : Reader σ ε α) b = (.ok a', rest) ↔ a' = a ∧ rest = b := by
  show ((.ok a, b) : Except ε α × List σ) = (.ok a', rest) ↔ _
  rw [Prod.mk.injEq, Except.ok.injEq]
  exact and_congr eq_comm eq_comm

/-- The same format for values of another type. -/
theorem Reads.map (hr : Reads r enc ok) {f : α → β} {g : β → α} (hgf : ∀ a, ok a → g (f a) = a)
    (hok : ∀ c, ok (g c)) (hfg : ∀ c, f (g c) = c) :
    Reads (do let a ← r; pure (f a)) (fun c => enc (g c)) fun _ => True := by
  intro b c rest
  rw [hr.bind_iff]
  simp only [pure_iff]
  constructor
  · rintro ⟨a, ha, tail, rfl, rfl, rfl⟩
    exact ⟨trivial, by rw [hgf a ha]⟩
  · rintro ⟨-, rfl⟩
    exact ⟨g c, hok c, rest, rfl, (hfg c).symm, rfl⟩

/-- A reader that goes on unless a check fails. -/
theorem ite_raise_iff {c : Prop} [Decidable c] {e : ε} {f : Reader σ ε β} {b rest : List σ}
    {a : β} :
    (if c then Exec.raise e else f) b = (.ok a, rest) ↔ ¬ c ∧ f b = (.ok a, rest) := by
  by_cases hc : c
  · rw [if_pos hc]
    exact ⟨nofun, fun h => absurd hc h.1⟩
  · rw [if_neg hc]
    exact ⟨fun h => ⟨hc, h⟩, fun h => h.2⟩

/-- Nothing is left of the input. -/
def finish (e : ε) : Reader σ ε Unit := fun input =>
  if input = [] then (.ok (), input) else (.error e, input)

theorem finish_bind_iff {e : ε} {f : Unit → Reader σ ε β} {b rest : List σ} {a : β} :
    (finish e >>= f) b = (.ok a, rest) ↔ b = [] ∧ f () [] = (.ok a, rest) := by
  rw [bind_ok_iff]
  constructor
  · rintro ⟨u, tail, hfinish, hf⟩
    rw [finish] at hfinish
    split at hfinish
    · rename_i hb
      cases hfinish
      exact ⟨hb, hb ▸ hf⟩
    · cases hfinish
  · rintro ⟨rfl, hf⟩
    exact ⟨(), [], rfl, hf⟩

/-- The next `n` symbols. -/
def take (e : ε) (n : Nat) : Reader σ ε (List σ) := fun input =>
  if n > input.length then (.error e, input) else (.ok (input.take n), input.drop n)

theorem reads_take (e : ε) (n : Nat) :
    Reads (take e n : Reader σ ε (List σ)) id fun l => l.length = n := by
  intro b a rest
  rw [take, id]
  split
  · rename_i hshort
    refine ⟨nofun, ?_⟩
    rintro ⟨hlength, rfl⟩
    rw [List.length_append] at hshort
    omega
  · rename_i hlong
    rw [Prod.mk.injEq, Except.ok.injEq]
    constructor
    · rintro ⟨rfl, rfl⟩
      exact ⟨List.length_take_of_le (Nat.le_of_not_lt hlong), (List.take_append_drop n b).symm⟩
    · rintro ⟨rfl, rfl⟩
      exact ⟨List.take_left, List.drop_left⟩

/-- A value that has to be there. -/
def ofOption (e : ε) : Option α → Reader σ ε α
  | none => Exec.raise e
  | some a => pure a

theorem ofOption_bind_iff {e : ε} {o : Option α} {f : α → Reader σ ε β} {b rest : List σ} {c : β} :
    (ofOption e o >>= f) b = (.ok c, rest) ↔ ∃ a, o = some a ∧ f a b = (.ok c, rest) := by
  cases o with
  | none => exact ⟨nofun, nofun⟩
  | some a =>
    constructor
    · intro h
      exact ⟨a, rfl, h⟩
    · rintro ⟨a', ha, h⟩
      cases ha
      exact h

/-- `n` values in a row. -/
def many (r : Reader σ ε α) : Nat → Reader σ ε (List α)
  | 0 => pure []
  | n + 1 => do
    let a ← r
    let l ← many r n
    pure (a :: l)

theorem reads_many (hr : Reads r enc ok) (n : Nat) :
    Reads (many r n) (fun l => l.flatMap enc) fun l => l.length = n ∧ ∀ a ∈ l, ok a := by
  induction n with
  | zero =>
    intro b l rest
    rw [many, pure_iff]
    constructor
    · rintro ⟨rfl, rfl⟩
      simp
    · rintro ⟨⟨hlength, -⟩, rfl⟩
      rw [List.length_eq_zero_iff.mp hlength]
      simp
  | succ n ih =>
    intro b l rest
    rw [many, hr.bind_iff]
    simp only [ih.bind_iff, pure_iff]
    constructor
    · rintro ⟨a, ha, tail, rfl, l', ⟨hlength, hall⟩, tail', rfl, rfl, rfl⟩
      simp only [List.length_cons, hlength, List.forall_mem_cons, ha, true_and, List.flatMap_cons,
        List.append_assoc, and_true]
      exact hall
    · rintro ⟨⟨hlength, hall⟩, rfl⟩
      cases l with
      | nil => cases hlength
      | cons a l =>
        refine ⟨a, hall a List.mem_cons_self, _, by simp, l, ⟨?_, fun c hc => ?_⟩, rest, rfl,
          rfl, rfl⟩
        · exact Nat.succ.inj hlength
        · exact hall c (List.mem_cons_of_mem _ hc)

end Reader

/-! ## Writers -/

section Writer

variable {w w' : Writer σ ε Unit} {ok ok' : Prop} {out out' : List σ}

/-- Append symbols as they are. -/
def raw (out : List σ) : Writer σ ε Unit := Exec.update fun b => b ++ out

theorem writes_raw (out : List σ) : Writes (raw out : Writer σ ε Unit) True out := by
  intro b b'
  show ((.ok (), b ++ out) : Except ε Unit × List σ) = (.ok (), b') ↔ _
  simp [eq_comm]

theorem Writes.bind (h : Writes w ok out) (h' : Writes w' ok' out') :
    Writes (w >>= fun _ => w') (ok ∧ ok') (out ++ out') := by
  intro b b'
  rw [bind_ok_iff]
  constructor
  · rintro ⟨u, mid, hw, hw'⟩
    obtain ⟨hok, rfl⟩ := (h b mid).mp hw
    obtain ⟨hok', rfl⟩ := (h' _ _).mp hw'
    exact ⟨⟨hok, hok'⟩, List.append_assoc _ _ _⟩
  · rintro ⟨⟨hok, hok'⟩, rfl⟩
    exact ⟨(), b ++ out, (h b _).mpr ⟨hok, rfl⟩, (h' _ _).mpr ⟨hok', by rw [List.append_assoc]⟩⟩

/-- A writer that goes on unless a check fails. -/
theorem Writes.unless {c : Prop} [Decidable c] {e : ε} (h : Writes w ok out) :
    Writes (if c then Exec.raise e else w) (¬ c ∧ ok) out := by
  intro b b'
  rw [ite_raise_iff, h, and_assoc]

theorem writes_forM {l : List α} {f : α → Writer σ ε Unit} {okOf : α → Prop} {enc : α → List σ}
    (h : ∀ a ∈ l, Writes (f a) (okOf a) (enc a)) :
    Writes (l.forM f) (∀ a ∈ l, okOf a) (l.flatMap enc) := by
  induction l with
  | nil =>
    intro b b'
    rw [show ([].forM f : Writer σ ε Unit) = pure () from rfl, pure_iff]
    simp
  | cons a l ih =>
    have hcons := (h a List.mem_cons_self).bind (ih fun c hc => h c (List.mem_cons_of_mem _ hc))
    rw [List.forall_mem_cons, List.flatMap_cons]
    exact hcons

theorem Writes.written_iff (h : Writes w ok out) {b : List σ} :
    written w = .ok b ↔ ok ∧ b = out := by
  rw [written]
  rcases hw : w [] with ⟨e | u, b'⟩
  · simp only [reduceCtorEq, false_iff]
    rintro ⟨hok, -⟩
    have := (h [] out).mpr ⟨hok, rfl⟩
    rw [hw] at this
    cases this
  · obtain ⟨hok, rfl⟩ := (h [] b').mp hw
    simp [hok, eq_comm]

end Writer

/-! ## Formats

A format is a pair of functions of the source and a condition on the messages.  The condition is not
computed from the two functions; it is written down, and `Canonical` says that it is the right
one. -/

/-- The decoder accepts exactly what the encoder writes, for the admissible messages, and the
encoder writes every admissible message. -/
structure Canonical (encode : α → Except ε (List σ)) (decode : List σ → Except ε α)
    (admits : α → Prop) : Prop where
  encodes (m : α) : admits m → ∃ b, encode m = .ok b
  decodes (b : List σ) (m : α) : decode b = .ok m ↔ admits m ∧ encode m = .ok b

/-- A format given by a writer for each message, and the spelling that the decoder accepts. -/
theorem Canonical.of_writes {encode : α → Except ε (List σ)} {decode : List σ → Except ε α}
    {admits ok : α → Prop} {enc : α → List σ}
    (hencode : ∀ b m, encode m = .ok b ↔ ok m ∧ b = enc m) (hok : ∀ m, admits m → ok m)
    (hdecode : ∀ b m, decode b = .ok m ↔ admits m ∧ b = enc m) :
    Canonical encode decode admits where
  encodes m hm := ⟨enc m, (hencode _ m).mpr ⟨hok m hm, rfl⟩⟩
  decodes b m := by
    rw [hdecode, hencode]
    exact and_congr_right fun hm => (and_iff_right (hok m hm)).symm

/-! ## Numbers

Every number of the formats is in little-endian order, so one pair of functions on naturals serves
all widths.  The fixed-width types of a program come in through `Reads.map`, once for each width. -/

/-- The `w` bytes of a number, least significant first. -/
def littleEndian : Nat → Nat → List UInt8
  | 0, _ => []
  | w + 1, n => UInt8.ofNat n :: littleEndian w (n / 256)

/-- The number with the given bytes, least significant first. -/
def ofLittleEndian : List UInt8 → Nat
  | [] => 0
  | b :: l => b.toNat + 256 * ofLittleEndian l

@[simp] theorem length_littleEndian (w n : Nat) : (littleEndian w n).length = w := by
  induction w generalizing n with
  | zero => rfl
  | succ w ih => rw [littleEndian, List.length_cons, ih]

theorem ofLittleEndian_lt (l : List UInt8) : ofLittleEndian l < 256 ^ l.length := by
  induction l with
  | nil => exact Nat.one_pos
  | cons b l ih =>
    have hb : b.toNat < 256 := b.toNat_lt
    rw [ofLittleEndian, List.length_cons, Nat.pow_succ]
    omega

theorem ofLittleEndian_littleEndian {w n : Nat} (h : n < 256 ^ w) :
    ofLittleEndian (littleEndian w n) = n := by
  induction w generalizing n with
  | zero =>
    rw [Nat.pow_zero, Nat.lt_one_iff] at h
    exact h.symm
  | succ w ih =>
    have hdiv : n / 256 < 256 ^ w := by
      rw [Nat.pow_succ] at h
      omega
    rw [littleEndian, ofLittleEndian, ih hdiv, UInt8.toNat_ofNat']
    omega

theorem littleEndian_ofLittleEndian (l : List UInt8) :
    littleEndian l.length (ofLittleEndian l) = l := by
  induction l with
  | nil => rfl
  | cons b l ih =>
    have hb : b.toNat < 256 := b.toNat_lt
    have hhead : UInt8.ofNat (b.toNat + 256 * ofLittleEndian l) = b := by
      apply UInt8.toNat_inj.mp
      rw [UInt8.toNat_ofNat']
      omega
    have htail : (b.toNat + 256 * ofLittleEndian l) / 256 = ofLittleEndian l := by omega
    rw [ofLittleEndian, List.length_cons, littleEndian, hhead, htail, ih]

/-- A number of `w` bytes. -/
def number (e : ε) (w : Nat) : Reader UInt8 ε Nat := do
  let bytes ← take e w
  pure (ofLittleEndian bytes)

theorem reads_number (e : ε) (w : Nat) :
    Reads (number e w) (littleEndian w) fun n => n < 256 ^ w := by
  intro b n rest
  rw [number, (reads_take e w).bind_iff]
  constructor
  · rintro ⟨bytes, rfl, tail, rfl, h⟩
    obtain ⟨rfl, rfl⟩ := pure_iff.mp h
    exact ⟨ofLittleEndian_lt bytes, by rw [littleEndian_ofLittleEndian, id]⟩
  · rintro ⟨hn, rfl⟩
    refine ⟨littleEndian w n, length_littleEndian w n, rest, rfl, pure_iff.mpr ⟨?_, rfl⟩⟩
    rw [ofLittleEndian_littleEndian hn]

end Codec
