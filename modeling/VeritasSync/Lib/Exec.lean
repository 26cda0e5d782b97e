import Mathlib

/-!
# Computations that throw and keep their effects

A C++ member function that throws leaves behind whatever it had already written.  `Exec σ ε α` is
that behaviour: a function from a state to a result *or an exception*, together with the state it
stopped in — the state survives in both cases.

A part of the program that is atomic (one SQL statement, one rename) is a plain
`σ → Except ε (α × σ)`, and `Exec.atomic` turns it into an `Exec` that changes nothing when it
throws.

## Proving something about a run

* `Exec.Wp m Q E s` — started in `s`, `m` ends with `Q` if it returns and with `E` if it throws.
  The rules follow the program, so a proof about a function is a walk through its text.
* `Exec.Within R m` — running `m` moves the state along the relation `R`, however it ends.  With
  `R` reflexive and transitive this composes along `>>=`, `if` and `forM` with no side conditions,
  and it covers the three things one wants to say about code that may stop anywhere: an invariant
  is kept (`Exec.Keeps`), a part of the state is left alone (`Exec.Same`), a quantity only grows.

`Exec.within_of_wp` leads from the first to the second, for a part of a program in which one step
needs to know what an earlier one returned.

The relation is the cheaper of the two and does most of the work.  A function of the source that is
forty lines long moves along `Same f` if each line does, and that is a term of the same shape as the
function; no intermediate state has a name.  A `Wp` is needed where the value that one line returns
decides what the next one is allowed to do.  Both speak about the exception as well, which is the
point of the whole file: the interesting states of a program that can throw are the ones it leaves
when it does.
-/

set_option autoImplicit false

/-- A computation on the state `σ` that returns an `α` or throws an `ε`. -/
def Exec (σ ε α : Type) : Type := σ → Except ε α × σ

namespace Exec

variable {σ ε α β : Type}

instance : Monad (Exec σ ε) where
  pure a := fun s => (.ok a, s)
  bind m f := fun s =>
    match m s with
    | (.ok a, s') => f a s'
    | (.error e, s') => (.error e, s')

/-- Stop with an exception. -/
def raise (e : ε) : Exec σ ε α := fun s => (.error e, s)

/-- The current state, unchanged. -/
def state : Exec σ ε σ := fun s => (.ok s, s)

/-- Change the state.  This cannot fail. -/
def update (f : σ → σ) : Exec σ ε Unit := fun s => (.ok (), f s)

/-- An operation that changes nothing when it throws. -/
def atomic (f : σ → Except ε (α × σ)) : Exec σ ε α := fun s =>
  match f s with
  | .ok (a, s') => (.ok a, s')
  | .error e => (.error e, s)

/-- The value of a check that only reads the state. -/
def check (f : σ → Except ε α) : Exec σ ε α := fun s => (f s, s)

/-- Run `m`, and let `h` have the exception if there is one. -/
def orElse (m : Exec σ ε α) (h : ε → Exec σ ε α) : Exec σ ε α := fun s =>
  match m s with
  | (.ok a, s') => (.ok a, s')
  | (.error e, s') => h e s'

/-- Run `m` if the condition holds. -/
def when (c : Prop) [Decidable c] (m : Exec σ ε Unit) : Exec σ ε Unit := if c then m else pure ()

/-! ## Evaluation -/

@[simp] theorem pure_apply (a : α) (s : σ) : (pure a : Exec σ ε α) s = (.ok a, s) := rfl

theorem bind_apply (m : Exec σ ε α) (f : α → Exec σ ε β) (s : σ) :
    (m >>= f) s =
      match m s with
      | (.ok a, s') => f a s'
      | (.error e, s') => (.error e, s') := rfl

theorem bind_apply_ok {m : Exec σ ε α} {f : α → Exec σ ε β} {s s' : σ} {a : α}
    (h : m s = (.ok a, s')) : (m >>= f) s = f a s' := by
  rw [bind_apply, h]

theorem bind_apply_error {m : Exec σ ε α} {f : α → Exec σ ε β} {s s' : σ} {e : ε}
    (h : m s = (.error e, s')) : (m >>= f) s = (.error e, s') := by
  rw [bind_apply, h]

@[simp] theorem raise_apply (e : ε) (s : σ) : (raise e : Exec σ ε α) s = (.error e, s) := rfl

@[simp] theorem state_apply (s : σ) : (state : Exec σ ε σ) s = (.ok s, s) := rfl

@[simp] theorem update_apply (f : σ → σ) (s : σ) :
    (update f : Exec σ ε Unit) s = (.ok (), f s) := rfl

@[simp] theorem check_apply (f : σ → Except ε α) (s : σ) : check f s = (f s, s) := rfl

theorem when_pos {c : Prop} [Decidable c] (h : c) (m : Exec σ ε Unit) : when c m = m := if_pos h

theorem when_neg {c : Prop} [Decidable c] (h : ¬ c) (m : Exec σ ε Unit) : when c m = pure () :=
  if_neg h

theorem check_apply_ok {f : σ → Except ε α} {s : σ} {a : α} (h : f s = .ok a) :
    check f s = (.ok a, s) := by
  rw [check_apply, h]

theorem atomic_apply_ok {f : σ → Except ε (α × σ)} {s s' : σ} {a : α} (h : f s = .ok (a, s')) :
    atomic f s = (.ok a, s') := by
  rw [atomic, h]

/-- A run that returned went through both halves. -/
theorem bind_eq_ok {m : Exec σ ε α} {f : α → Exec σ ε β} {s s'' : σ} {b : β}
    (h : (m >>= f) s = (.ok b, s'')) : ∃ a s', m s = (.ok a, s') ∧ f a s' = (.ok b, s'') := by
  rw [bind_apply] at h
  split at h
  · rename_i a s' hm
    exact ⟨a, s', hm, h⟩
  · cases h

/-! ## Pre- and postconditions

A weakest precondition for each of the two ways to end.  The rules are named after the constructs
and are meant to be used from the outside in; `wp_mono` weakens both ends at once. -/

/-- Started in `s`, `m` ends with `Q` if it returns and with `E` if it throws. -/
def Wp (m : Exec σ ε α) (Q : α → σ → Prop) (E : ε → σ → Prop) (s : σ) : Prop :=
  match m s with
  | (.ok a, s') => Q a s'
  | (.error e, s') => E e s'

section WpRules

variable {Q Q' : α → σ → Prop} {R : β → σ → Prop} {E E' : ε → σ → Prop} {s : σ}

@[simp] theorem wp_pure (a : α) : Wp (pure a : Exec σ ε α) Q E s ↔ Q a s := Iff.rfl

@[simp] theorem wp_raise (e : ε) : Wp (raise e : Exec σ ε α) Q E s ↔ E e s := Iff.rfl

@[simp] theorem wp_state {Q : σ → σ → Prop} : Wp (state : Exec σ ε σ) Q E s ↔ Q s s := Iff.rfl

@[simp] theorem wp_update {Q : Unit → σ → Prop} (f : σ → σ) :
    Wp (update f : Exec σ ε Unit) Q E s ↔ Q () (f s) := Iff.rfl

theorem wp_check {f : σ → Except ε α} (herr : ∀ e, f s = .error e → E e s)
    (hok : ∀ a, f s = .ok a → Q a s) : Wp (check f) Q E s := by
  rw [Wp, check_apply]
  cases hf : f s with
  | error e => exact herr e hf
  | ok a => exact hok a hf

@[simp] theorem wp_bind (m : Exec σ ε α) (f : α → Exec σ ε β) :
    Wp (m >>= f) R E s ↔ Wp m (fun a s' => Wp (f a) R E s') E s := by
  rw [Wp, Wp, bind_apply]
  rcases m s with ⟨e | a, s'⟩
  · exact Iff.rfl
  · exact Iff.rfl

theorem wp_atomic {f : σ → Except ε (α × σ)} (herr : ∀ e, f s = .error e → E e s)
    (hok : ∀ a s', f s = .ok (a, s') → Q a s') : Wp (atomic f) Q E s := by
  rw [Wp, atomic]
  cases hf : f s with
  | error e => exact herr e hf
  | ok r => exact hok r.1 r.2 hf

/-- A check whose outcome is known. -/
theorem wp_check_ok {f : σ → Except ε α} {a : α} (h : f s = .ok a) (hQ : Q a s) :
    Wp (check f) Q E s := by
  rw [Wp, check_apply_ok h]
  exact hQ

theorem wp_ite {c : Prop} [Decidable c] {m m' : Exec σ ε α} (h : c → Wp m Q E s)
    (h' : ¬ c → Wp m' Q E s) : Wp (if c then m else m') Q E s := by
  split
  · exact h ‹_›
  · exact h' ‹_›

theorem wp_when {Q : Unit → σ → Prop} {c : Prop} [Decidable c] {m : Exec σ ε Unit}
    (h : c → Wp m Q E s) (h' : ¬ c → Q () s) : Wp (when c m) Q E s :=
  wp_ite h h'

theorem wp_mono {m : Exec σ ε α} (h : Wp m Q E s) (hQ : ∀ a s', Q a s' → Q' a s')
    (hE : ∀ e s', E e s' → E' e s') : Wp m Q' E' s := by
  rw [Wp] at h ⊢
  rcases hm : m s with ⟨e | a, s'⟩
  · rw [hm] at h
    exact hE e s' h
  · rw [hm] at h
    exact hQ a s' h

theorem wp_and {m : Exec σ ε α} (h : Wp m Q E s) (h' : Wp m Q' E' s) :
    Wp m (fun a s' => Q a s' ∧ Q' a s') (fun e s' => E e s' ∧ E' e s') s := by
  rw [Wp] at h h' ⊢
  rcases hm : m s with ⟨e | a, s'⟩
  · rw [hm] at h h'
    exact ⟨h, h'⟩
  · rw [hm] at h h'
    exact ⟨h, h'⟩

theorem wp_orElse {m : Exec σ ε α} {h : ε → Exec σ ε α}
    (hm : Wp m Q (fun e s' => Wp (h e) Q E s') s) : Wp (orElse m h) Q E s := by
  rw [Wp] at hm
  rw [Wp, orElse]
  rcases hm' : m s with ⟨e | a, s'⟩
  · rw [hm'] at hm
    exact hm
  · rw [hm'] at hm
    exact hm

/-- A loop keeps what its body keeps. -/
theorem wp_forM {γ : Type} {I : σ → Prop} {l : List γ} {f : γ → Exec σ ε PUnit}
    (hf : ∀ a ∈ l, ∀ s, I s → Wp (f a) (fun _ => I) E s) (hs : I s) :
    Wp (l.forM f) (fun _ => I) E s := by
  induction l generalizing s with
  | nil => exact hs
  | cons a l ih =>
    rw [show (a :: l).forM f = (f a >>= fun _ => l.forM f) from rfl, wp_bind]
    refine wp_mono (hf a List.mem_cons_self s hs) (fun _ s' hs' => ?_) fun _ _ h => h
    exact ih (fun b hb => hf b (List.mem_cons_of_mem _ hb)) hs'

/-- A loop with an invariant that mentions the rounds already made. -/
theorem wp_forM_prefix {γ : Type} {I : List γ → σ → Prop} {l : List γ} {f : γ → Exec σ ε PUnit}
    (hf : ∀ done a rest, l = done ++ a :: rest → ∀ s, I done s →
      Wp (f a) (fun _ => I (done ++ [a])) E s) (hs : I [] s) :
    Wp (l.forM f) (fun _ => I l) E s := by
  have hloop : ∀ rest done s, l = done ++ rest → I done s →
    Wp (rest.forM f) (fun _ => I l) E s := by
    intro rest
    induction rest with
    | nil =>
      intro done s hl hs
      rw [hl, List.append_nil]
      exact hs
    | cons a rest ih =>
      intro done s hl hs
      rw [show (a :: rest).forM f = (f a >>= fun _ => rest.forM f) from rfl, wp_bind]
      refine wp_mono (hf done a rest hl s hs) (fun _ s' hs' => ?_) fun _ _ h => h
      exact ih (done ++ [a]) s' (by rw [hl, List.append_assoc]; rfl) hs'
  exact hloop l [] s rfl hs

/-- What holds however `m` ends holds of the state it leaves. -/
theorem of_wp {I : σ → Prop} {m : Exec σ ε α} (h : Wp m (fun _ => I) (fun _ => I) s) :
    I (m s).2 := by
  rw [Wp] at h
  rcases hm : m s with ⟨e | a, s'⟩
  · rwa [hm] at h
  · rwa [hm] at h

/-- What holds if the computation returns, when it does. -/
theorem of_wp_ok {m : Exec σ ε α} (h : Wp m Q E s) {a : α} (hok : (m s).1 = .ok a) :
    Q a (m s).2 := by
  rw [Wp] at h
  rcases hm : m s with ⟨e | a', s'⟩
  · rw [hm] at hok
    cases hok
  · rw [hm] at h hok
    cases hok
    exact h

/-- The same, of a run that is known. -/
theorem of_wp_run {m : Exec σ ε α} (h : Wp m Q E s) {a : α} {s' : σ} (hrun : m s = (.ok a, s')) :
    Q a s' := by
  rw [Wp, hrun] at h
  exact h

/-- A computation that cannot throw returns. -/
theorem ok_of_wp {m : Exec σ ε α} (h : Wp m Q (fun _ _ => False) s) : ∃ a, (m s).1 = .ok a := by
  rw [Wp] at h
  rcases hm : m s with ⟨e | a, s'⟩
  · rw [hm] at h
    exact h.elim
  · exact ⟨a, rfl⟩

theorem wp_of {I : σ → Prop} {m : Exec σ ε α} (h : I (m s).2) :
    Wp m (fun _ => I) (fun _ => I) s := by
  rw [Wp]
  rcases hm : m s with ⟨e | a, s'⟩
  · rwa [hm] at h
  · rwa [hm] at h

end WpRules

/-! ## Moving along a relation

What most of the code does to most of the state is nothing, and what it does to the rest usually
follows an order.  For statements of that kind the returned values do not matter, and the rules have
no premises beyond the ones about the parts. -/

/-- Running `m` moves the state along `R`, whether it returns or throws. -/
def Within (R : σ → σ → Prop) (m : Exec σ ε α) : Prop := ∀ s, R s (m s).2

/-- `I` survives: where it held it holds. -/
def Keeps (I : σ → Prop) (s s' : σ) : Prop := I s → I s'

/-- The part `f` of the state is left alone. -/
def Same {γ : Type} (f : σ → γ) (s s' : σ) : Prop := f s' = f s

instance (I : σ → Prop) : IsPreorder σ (Keeps I) where
  refl _ := id
  trans _ _ _ h h' := h' ∘ h

instance {γ : Type} (f : σ → γ) : IsPreorder σ (Same f) where
  refl _ := rfl
  trans _ _ _ h h' := Eq.trans h' h

section Rules

variable {R : σ → σ → Prop} [IsPreorder σ R]

theorem within_pure (a : α) : Within R (pure a : Exec σ ε α) := fun s => refl_of R s

theorem within_raise (e : ε) : Within R (raise e : Exec σ ε α) := fun s => refl_of R s

theorem within_state : Within R (state : Exec σ ε σ) := fun s => refl_of R s

theorem within_check (f : σ → Except ε α) : Within R (check f) := fun s => refl_of R s

omit [IsPreorder σ R] in
theorem within_update {f : σ → σ} (h : ∀ s, R s (f s)) : Within R (update f : Exec σ ε Unit) := h

theorem within_atomic {f : σ → Except ε (α × σ)} (h : ∀ s a s', f s = .ok (a, s') → R s s') :
    Within R (atomic f) := by
  intro s
  rw [atomic]
  split
  · rename_i a s' hf
    exact h s a s' hf
  · exact refl_of R s

theorem within_bind {m : Exec σ ε α} {f : α → Exec σ ε β} (hm : Within R m)
    (hf : ∀ a, Within R (f a)) : Within R (m >>= f) := by
  intro s
  have hs := hm s
  rw [bind_apply]
  split
  · rename_i a s' h
    rw [h] at hs
    exact trans_of R hs (hf a s')
  · rename_i e s' h
    rwa [h] at hs

omit [IsPreorder σ R] in
/-- Two halves that move along different relations. -/
theorem within_bind_of {S T : σ → σ → Prop} {m : Exec σ ε α} {f : α → Exec σ ε β}
    (hm : Within R m) (hf : ∀ a, Within S (f a)) (hR : ∀ s s', R s s' → T s s')
    (hRS : ∀ s s' s'', R s s' → S s' s'' → T s s'') : Within T (m >>= f) := by
  intro s
  have hs := hm s
  rw [bind_apply]
  split
  · rename_i a s' h
    rw [h] at hs
    exact hRS s s' _ hs (hf a s')
  · rename_i e s' h
    rw [h] at hs
    exact hR s s' hs

omit [IsPreorder σ R] in
theorem within_of_wp {m : Exec σ ε α}
    (h : ∀ s, Wp m (fun _ s' => R s s') (fun _ s' => R s s') s) : Within R m :=
  fun s => of_wp (h s)

omit [IsPreorder σ R] in
/-- A relation and a postcondition together. -/
theorem wp_within {m : Exec σ ε α} {Q : α → σ → Prop} {E : ε → σ → Prop} {s : σ}
    (hR : Within R m) (h : Wp m Q E s) :
    Wp m (fun a s' => R s s' ∧ Q a s') (fun e s' => R s s' ∧ E e s') s := by
  have hs := hR s
  rw [Wp] at h ⊢
  rcases hm : m s with ⟨e | a, s'⟩
  · rw [hm] at h hs
    exact ⟨hs, h⟩
  · rw [hm] at h hs
    exact ⟨hs, h⟩

omit [IsPreorder σ R] in
theorem within_ite {c : Prop} [Decidable c] {m m' : Exec σ ε α} (h : c → Within R m)
    (h' : ¬ c → Within R m') : Within R (if c then m else m') := by
  split
  · exact h ‹_›
  · exact h' ‹_›

theorem within_when {c : Prop} [Decidable c] {m : Exec σ ε Unit} (h : c → Within R m) :
    Within R (when c m) :=
  within_ite h fun _ => within_pure ()

/-- The second half may rely on what a check found. -/
theorem within_check_bind {f : σ → Except ε α} {k : α → Exec σ ε β}
    (h : ∀ s a, f s = .ok a → Within R (k a)) : Within R (check f >>= k) := by
  intro s
  rw [bind_apply, check_apply]
  cases hf : f s with
  | error e => exact refl_of R s
  | ok a => exact h s a hf s

theorem within_orElse {m : Exec σ ε α} {h : ε → Exec σ ε α} (hm : Within R m)
    (hh : ∀ e, Within R (h e)) : Within R (orElse m h) := by
  intro s
  have := hm s
  rw [orElse]
  split
  · rename_i heq
    rwa [heq] at this
  · rename_i e s' heq
    rw [heq] at this
    exact trans_of R this (hh e s')

omit [IsPreorder σ R] in
/-- An invariant may be assumed at the start. -/
theorem keeps_of_wp {I : σ → Prop} {m : Exec σ ε α}
    (h : ∀ s, I s → Wp m (fun _ => I) (fun _ => I) s) : Within (Keeps I) m :=
  fun s hs => of_wp (h s hs)

omit [IsPreorder σ R] in
theorem within_and {I J : σ → Prop} {m : Exec σ ε α} (hI : Within (Keeps I) m)
    (hJ : Within (Keeps J) m) : Within (Keeps fun s => I s ∧ J s) m :=
  fun s hs => ⟨hI s hs.1, hJ s hs.2⟩

/-- A loop moves along `R` when its body does. -/
theorem within_forM {γ : Type} {l : List γ} {f : γ → Exec σ ε PUnit}
    (hf : ∀ a ∈ l, Within R (f a)) : Within R (l.forM f) := by
  induction l with
  | nil => exact within_pure _
  | cons a l ih =>
    show Within R (f a >>= fun _ => l.forM f)
    exact within_bind (hf a List.mem_cons_self) fun _ =>
      ih fun b hb => hf b (List.mem_cons_of_mem _ hb)

end Rules

end Exec
