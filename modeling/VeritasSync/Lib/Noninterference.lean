import VeritasSync.Lib.Exec
import VeritasSync.Lib.Run

/-!
# Two runs that look the same

A system is observed through a `view` of its state, and some of its actions are *hidden*: the
observer is not told that they happened.  Noninterference says that the view after a run depends
only on what the observer could see of the actions.

* `Run.view_eq_of_project` is the unwinding rule.  It asks for two things about single steps: a
  hidden action leaves the view alone, and two actions that look the same take states that look the
  same to states that look the same.
* `Exec.Coupled` is the second condition for a part of a program: started in two states that look
  the same, it ends in the same way and in states that look the same.  Its rules follow the program.
  `Exec.coupled_forM` is the rule for a loop in which some rounds are hidden: such a round may do
  anything to its own part of the state, but it must not throw.

The rule is the classical one of unwinding, with two additions that programs need.  There may be an
assumption on the steps of both runs, for a system that keeps its parties apart only as long as
nothing throws; and there may be an invariant, because two states that look the same need not behave
the same if one of them is impossible.
-/

set_option autoImplicit false

universe u v w

namespace Run

variable {σ : Type u} {α : Type v} {ν : Type w} {β : Type v} {step : σ → α → σ}

/-- What can be seen of a run: the actions that are not hidden, as far as they can be seen. -/
def project (hidden : α → Bool) (look : α → β) (as : List α) : List β :=
  (as.filter fun a => !hidden a).map look

variable {hidden : α → Bool} {look : α → β} {view : σ → ν} {P : σ → α → Prop} {I : σ → Prop}

theorem project_cons_hidden {a : α} (h : hidden a = true) (as : List α) :
    project hidden look (a :: as) = project hidden look as := by
  simp [project, h]

theorem project_cons_visible {a : α} (h : hidden a = false) (as : List α) :
    project hidden look (a :: as) = look a :: project hidden look as := by
  simp [project, h]

/-- A run of which nothing can be seen leaves the view alone. -/
theorem view_eq_of_project_nil (hI : ∀ s a, I s → I (step s a))
    (hhidden : ∀ s a, I s → hidden a = true → view (step s a) = view s) :
    ∀ (as : List α) (s : σ), I s → project hidden look as = [] → view (run step s as) = view s
  | [], _, _, _ => rfl
  | a :: as, s, hs, h => by
    cases ha : hidden a with
    | false =>
      rw [project_cons_visible ha] at h
      cases h
    | true =>
      rw [project_cons_hidden ha] at h
      rw [run_cons, view_eq_of_project_nil hI hhidden as _ (hI s a hs) h, hhidden s a hs ha]

/-- **The unwinding rule**, with an assumption `P` on the steps of both runs and an invariant `I`.
-/
theorem view_eq_of_project (hI : ∀ s a, I s → I (step s a))
    (hhidden : ∀ s a, I s → hidden a = true → view (step s a) = view s)
    (hvisible : ∀ s t a b, I s → I t → P s a → P t b → hidden a = false → hidden b = false →
      look a = look b → view s = view t → view (step s a) = view (step t b)) :
    ∀ (as bs : List α) (s t : σ), I s → I t → Along step P s as → Along step P t bs →
      project hidden look as = project hidden look bs → view s = view t →
      view (run step s as) = view (run step t bs)
  | [], bs, s, t, _, ht, _, _, h, hst => by
    rw [run_nil, view_eq_of_project_nil hI hhidden bs t ht h.symm, hst]
  | a :: as, [], s, t, hs, _, _, _, h, hst => by
    rw [run_nil, view_eq_of_project_nil hI hhidden (a :: as) s hs h, hst]
  | a :: as, b :: bs, s, t, hs, ht, hP, hQ, h, hst => by
    cases ha : hidden a with
    | true =>
      rw [project_cons_hidden ha] at h
      refine view_eq_of_project hI hhidden hvisible as (b :: bs) _ t (hI s a hs) ht hP.2 hQ h ?_
      rw [hhidden s a hs ha, hst]
    | false =>
      cases hb : hidden b with
      | true =>
        rw [project_cons_hidden hb] at h
        refine view_eq_of_project hI hhidden hvisible (a :: as) bs s _ hs (hI t b ht) hP hQ.2 h ?_
        rw [hhidden t b ht hb, hst]
      | false =>
        rw [project_cons_visible ha, project_cons_visible hb] at h
        obtain ⟨hlook, h⟩ := List.cons.inj h
        exact view_eq_of_project hI hhidden hvisible as bs _ _ (hI s a hs) (hI t b ht) hP.2 hQ.2 h
          (hvisible s t a b hs ht hP.1 hQ.1 ha hb hlook hst)
  termination_by as bs => as.length + bs.length

end Run

namespace Exec

variable {σ ε α β ν : Type} {view : σ → ν}

/-- Started in `s` and in `t`, `m` and `m'` end in the same way and in states that look the same. -/
def Coupled (view : σ → ν) (m m' : Exec σ ε α) (s t : σ) : Prop :=
  (m s).1 = (m' t).1 ∧ view (m s).2 = view (m' t).2

section Rules

variable {s t : σ}

theorem coupled_pure (a : α) (h : view s = view t) :
    Coupled view (pure a : Exec σ ε α) (pure a) s t := ⟨rfl, h⟩

theorem coupled_raise (e : ε) (h : view s = view t) :
    Coupled view (raise e : Exec σ ε α) (raise e) s t := ⟨rfl, h⟩

theorem coupled_update {f g : σ → σ} (h : view (f s) = view (g t)) :
    Coupled view (update f : Exec σ ε Unit) (update g) s t := ⟨rfl, h⟩

theorem coupled_check {f g : σ → Except ε α} (hfg : f s = g t) (h : view s = view t) :
    Coupled view (check f) (check g) s t := ⟨hfg, h⟩

theorem coupled_atomic {γ : Type} {f g : σ → Except ε (α × σ)} {x : Except ε γ}
    {k l : γ → α × σ} (hf : f s = x.map k) (hg : g t = x.map l)
    (hk : ∀ r, (k r).1 = (l r).1 ∧ view (k r).2 = view (l r).2) (h : view s = view t) :
    Coupled view (atomic f) (atomic g) s t := by
  rw [Coupled, atomic, atomic, hf, hg]
  cases x with
  | error e => exact ⟨rfl, h⟩
  | ok r => exact ⟨congrArg Except.ok (hk r).1, (hk r).2⟩

/-- The second half starts where the first one ends. -/
theorem coupled_bind_at {m m' : Exec σ ε α} {f f' : α → Exec σ ε β} (hm : Coupled view m m' s t)
    (hf : ∀ a, (m s).1 = .ok a → Coupled view (f a) (f' a) (m s).2 (m' t).2) :
    Coupled view (m >>= f) (m' >>= f') s t := by
  obtain ⟨hresult, hview⟩ := hm
  rw [Coupled, bind_apply, bind_apply]
  rcases hm : m s with ⟨e | a, s'⟩ <;> rcases hm' : m' t with ⟨e' | a', t'⟩
  · rw [hm, hm'] at hresult hview
    cases hresult
    exact ⟨rfl, hview⟩
  · rw [hm, hm'] at hresult
    cases hresult
  · rw [hm, hm'] at hresult
    cases hresult
  · rw [hm, hm'] at hresult hf
    cases hresult
    exact hf a rfl

theorem coupled_bind {m m' : Exec σ ε α} {f f' : α → Exec σ ε β} (hm : Coupled view m m' s t)
    (hf : ∀ a s' t', view s' = view t' → Coupled view (f a) (f' a) s' t') :
    Coupled view (m >>= f) (m' >>= f') s t :=
  coupled_bind_at hm fun a _ => hf a _ _ hm.2

/-- If only the view counts, the second halves need not end in the same way. -/
theorem view_bind {m m' : Exec σ ε α} {f f' : α → Exec σ ε β} (hm : Coupled view m m' s t)
    (hf : ∀ a s' t', view s' = view t' → view (f a s').2 = view (f' a t').2) :
    view ((m >>= f) s).2 = view ((m' >>= f') t).2 := by
  obtain ⟨hresult, hview⟩ := hm
  rw [bind_apply, bind_apply]
  rcases hm : m s with ⟨e | a, s'⟩ <;> rcases hm' : m' t with ⟨e' | a', t'⟩
  · rw [hm, hm'] at hview
    exact hview
  · rw [hm, hm'] at hresult
    cases hresult
  · rw [hm, hm'] at hresult
    cases hresult
  · rw [hm, hm'] at hresult hview
    cases hresult
    exact hf a s' t' hview

theorem coupled_state {f f' : σ → Exec σ ε β} (h : Coupled view (f s) (f' t) s t) :
    Coupled view (state >>= f) (state >>= f') s t := h

theorem coupled_ite {c c' : Prop} [Decidable c] [Decidable c'] {m₁ m₂ m₁' m₂' : Exec σ ε α}
    (hc : c ↔ c') (h₁ : c → Coupled view m₁ m₁' s t) (h₂ : ¬ c → Coupled view m₂ m₂' s t) :
    Coupled view (if c then m₁ else m₂) (if c' then m₁' else m₂') s t := by
  by_cases h : c
  · rw [if_pos h, if_pos (hc.mp h)]
    exact h₁ h
  · rw [if_neg h, if_neg (mt hc.mpr h)]
    exact h₂ h

theorem coupled_when {c c' : Prop} [Decidable c] [Decidable c'] {m m' : Exec σ ε Unit}
    (hc : c ↔ c') (hm : c → Coupled view m m' s t) (h : view s = view t) :
    Coupled view (when c m) (when c' m') s t :=
  coupled_ite hc hm fun _ => coupled_pure () h

theorem coupled_orElse {m m' : Exec σ ε α} {h h' : ε → Exec σ ε α} (hm : Coupled view m m' s t)
    (hh : ∀ e s' t', view s' = view t' → Coupled view (h e) (h' e) s' t') :
    Coupled view (orElse m h) (orElse m' h') s t := by
  obtain ⟨hresult, hview⟩ := hm
  rw [Coupled, orElse, orElse]
  rcases hm : m s with ⟨e | a, s'⟩ <;> rcases hm' : m' t with ⟨e' | a', t'⟩
  · rw [hm, hm'] at hresult hview
    cases hresult
    exact hh e s' t' hview
  · rw [hm, hm'] at hresult
    cases hresult
  · rw [hm, hm'] at hresult
    cases hresult
  · rw [hm, hm'] at hresult hview
    exact ⟨hresult, hview⟩

end Rules

/-! ## Loops with hidden rounds

A loop over several parties does something for each of them, and to the one who observes, the rounds
of the others are noise.  What they must not do is end the loop: an exception in a hidden round
would be seen by everybody whose turn was still to come. -/

section Loops

variable {γ : Type} {f : γ → Exec σ ε PUnit} {l : List γ}

/-- A loop without hidden rounds. -/
theorem coupled_forM_visible
    (hf : ∀ a ∈ l, ∀ s t, view s = view t → Coupled view (f a) (f a) s t) {s t : σ}
    (hst : view s = view t) : Coupled view (l.forM f) (l.forM f) s t := by
  induction l generalizing s t with
  | nil => exact coupled_pure _ hst
  | cons a l ih =>
    exact coupled_bind (hf a List.mem_cons_self s t hst) fun _ _ _ h =>
      ih (fun b hb => hf b (List.mem_cons_of_mem _ hb)) h

/-- **A loop with at most one hidden round.**  `Safe` says that the hidden round will not throw, and
the other rounds keep it. -/
theorem coupled_forM (special : γ → Prop) (Safe : σ → Prop)
    (honce : l.Pairwise fun a b => ¬ (special a ∧ special b))
    (hf : ∀ a ∈ l, ¬ special a → ∀ s t, view s = view t → Coupled view (f a) (f a) s t)
    (hkeeps : ∀ a ∈ l, ¬ special a → Within (Keeps Safe) (f a))
    (hsame : ∀ a ∈ l, special a → Within (Same view) (f a))
    (hsafe : ∀ a ∈ l, special a → ∀ s, Safe s → (f a s).1 = .ok ⟨⟩) {s t : σ}
    (hs : Safe s) (ht : Safe t) (hst : view s = view t) :
    Coupled view (l.forM f) (l.forM f) s t := by
  induction l generalizing s t with
  | nil => exact coupled_pure _ hst
  | cons a l ih =>
    have hstep : ∀ b ∈ l, b ∈ a :: l := fun b hb => List.mem_cons_of_mem _ hb
    rw [List.pairwise_cons] at honce
    by_cases ha : special a
    · have hrest : ∀ s t, view s = view t → Coupled view (l.forM f) (l.forM f) s t :=
        fun _ _ => coupled_forM_visible fun b hb => hf b (hstep b hb) fun h => honce.1 b hb ⟨ha, h⟩
      have hok := hsafe a List.mem_cons_self ha
      refine coupled_bind ⟨(hok s hs).trans (hok t ht).symm, ?_⟩ fun _ => hrest
      exact ((hsame a List.mem_cons_self ha s).trans hst).trans
        (hsame a List.mem_cons_self ha t).symm
    · have hround := hf a List.mem_cons_self ha s t hst
      refine coupled_bind_at hround fun _ _ => ih honce.2 (fun b hb => hf b (hstep b hb))
        (fun b hb => hkeeps b (hstep b hb)) (fun b hb => hsame b (hstep b hb))
        (fun b hb => hsafe b (hstep b hb)) ?_ ?_ hround.2
      · exact hkeeps a List.mem_cons_self ha s hs
      · exact hkeeps a List.mem_cons_self ha t ht

end Loops

end Exec
