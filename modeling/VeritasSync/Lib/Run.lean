import Mathlib

/-!
# Runs of a step function

A system is a total function `step : σ → α → σ`: an action that is not enabled leaves the state as
it is.  A run is then a list of actions, and "in every run" is a plain quantifier over lists.

`Along P s as` says that `P` holds of every state and action met along the run.  With it, an
assumption on a run ("no step of this kind") and a conclusion about a run ("every step of that kind
is harmless") have the same form, and `Run.along_of_invariant` leads from one to the other through
an invariant.

A system here is a function `step` and not a relation: what a real system leaves open, the order of
its messages or the answers of the world, is part of the action.  A run is then a list of actions,
its state is a fold, and quantifying over the list quantifies over every interleaving there is.

`Along` is for theorems with a condition on the way.  A statement that holds as long as some bad
thing does not happen says so of every state and action met, and the induction hands the condition
to the step lemma where it is needed.
-/

set_option autoImplicit false

universe u v

namespace Run

variable {σ : Type u} {α : Type v} (step : σ → α → σ)

/-- The state after the actions `as`. -/
def run (s : σ) (as : List α) : σ := as.foldl step s

/-- `P` holds of every state and action met along the run. -/
def Along (P : σ → α → Prop) : σ → List α → Prop
  | _, [] => True
  | s, a :: as => P s a ∧ Along P (step s a) as

variable {step} {P Q : σ → α → Prop} {I : σ → Prop} {s : σ}

@[simp] theorem run_nil : run step s [] = s := rfl

@[simp] theorem run_cons (a : α) (as : List α) :
    run step s (a :: as) = run step (step s a) as := rfl

theorem run_append (as bs : List α) : run step s (as ++ bs) = run step (run step s as) bs :=
  List.foldl_append

/-- **The invariant rule**, with an assumption on the steps taken.  The assumption is asked of each
step in the state in which it is taken. -/
theorem run_invariant (hstep : ∀ s a, P s a → I s → I (step s a)) :
    ∀ (as : List α) (s : σ), Along step P s as → I s → I (run step s as)
  | [], _, _, h => h
  | a :: as, s, hP, h => run_invariant hstep as (step s a) hP.2 (hstep s a hP.1 h)

/-- The invariant rule for a run of arbitrary actions. -/
theorem run_invariant_all (hstep : ∀ s a, I s → I (step s a)) (as : List α) (h : I s) :
    I (run step s as) := by
  induction as generalizing s with
  | nil => exact h
  | cons a as ih => exact ih (hstep s a h)

/-- What an invariant gives at each step holds along the whole run. -/
theorem along_of_invariant (hstep : ∀ s a, P s a → I s → Q s a ∧ I (step s a)) :
    ∀ (as : List α) (s : σ), Along step P s as → I s → Along step Q s as
  | [], _, _, _ => trivial
  | a :: as, s, hP, h =>
    ⟨(hstep s a hP.1 h).1, along_of_invariant hstep as (step s a) hP.2 (hstep s a hP.1 h).2⟩

/-- An assumption on the actions alone. -/
theorem along_of_forall {P : α → Prop} {as : List α} (h : ∀ a ∈ as, P a) :
    Along step (fun _ a => P a) s as := by
  induction as generalizing s with
  | nil => trivial
  | cons a as ih =>
    exact ⟨h a List.mem_cons_self, ih fun b hb => h b (List.mem_cons_of_mem _ hb)⟩

theorem along_mono (hPQ : ∀ s a, P s a → Q s a) {as : List α} (hP : Along step P s as) :
    Along step Q s as := by
  induction as generalizing s with
  | nil => trivial
  | cons a as ih => exact ⟨hPQ s a hP.1, ih hP.2⟩

instance decidableAlong [∀ s a, Decidable (P s a)] :
    ∀ (s : σ) (as : List α), Decidable (Along step P s as)
  | _, [] => .isTrue trivial
  | s, a :: as =>
    have := decidableAlong (step s a) as
    inferInstanceAs (Decidable (P s a ∧ Along step P (step s a) as))

theorem along_and {as : List α} (hP : Along step P s as) (hQ : Along step Q s as) :
    Along step (fun s a => P s a ∧ Q s a) s as := by
  induction as generalizing s with
  | nil => trivial
  | cons a as ih => exact ⟨⟨hP.1, hQ.1⟩, ih hP.2 hQ.2⟩

theorem along_append {as bs : List α} :
    Along step P s (as ++ bs) ↔ Along step P s as ∧ Along step P (run step s as) bs := by
  induction as generalizing s with
  | nil => simp [Along]
  | cons a as ih => simp [Along, ih, and_assoc]

end Run
