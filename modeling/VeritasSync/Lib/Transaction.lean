import VeritasSync.Lib.Exec

/-!
# Transactions whose statements can fail

A program that talks to an SQL database opens a transaction, executes statements and commits; when
anything throws on the way it rolls back and passes the exception on.  Any of the statements can
fail for reasons of the storage, the `BEGIN` and the `COMMIT` included, and until the rollback the
earlier ones have had their effect.

`fault` says which statements the storage fails, by their number on the connection.  Nothing is
assumed about it.

## What is here

* `statement`, `inTransaction` — the two ways in which a program uses a connection.
* `Implements fault m f` — the statements of `m` do one after the other what `f` does at once,
  unless one fails.  It composes along `>>=`.
* `Implements.inTransaction` — **all or nothing**: a transaction around `m` either does what `f`
  does or leaves the database alone.
* `Atomic fault m f` — the same of any call, a transaction or a single statement.

The effect of a program on its database is easiest to state as a function `f` that either returns a
new database or throws.  The program itself is a list of statements with checks and computations in
between, and between any two of them the storage may fail.  `Implements` relates the two without
mentioning how many statements there are, so it holds of a loop and of a helper function as well,
and it is the only thing a proof about a call has to establish; the transaction around it is dealt
with here.

A rollback can fail like any other statement.  The exception that leaves is then that of the
rollback and not the one that caused it, and the database is nevertheless what it was.
-/

set_option autoImplicit false

namespace Transaction

open Exec

variable {σ ε α β : Type}

/-- A connection: the database its statements see, what a rollback goes back to while a transaction
is open, and the number of statements executed. -/
structure Connection (σ : Type) where
  db : σ
  saved : Option σ
  executed : Nat

/-- A connection without an open transaction. -/
def Connection.Idle (c : Connection σ) : Prop := c.saved = none

variable (fault : Nat → Option ε)

/-- A statement, or a few of which only the last one writes. -/
def statement (f : σ → Except ε (α × σ)) : Exec (Connection σ) ε α := fun c =>
  match fault c.executed, f c.db with
  | none, .ok (a, db) => (.ok a, { c with db, executed := c.executed + 1 })
  | none, .error e => (.error e, { c with executed := c.executed + 1 })
  | some e, _ => (.error e, { c with executed := c.executed + 1 })

/-- `BEGIN`: the tables as they are now are kept aside. -/
def begin : Exec (Connection σ) ε Unit := fun c =>
  match fault c.executed with
  | none => (.ok (), { c with saved := some c.db, executed := c.executed + 1 })
  | some e => (.error e, { c with executed := c.executed + 1 })

/-- `COMMIT`.  If it fails the transaction stays open. -/
def commit : Exec (Connection σ) ε Unit := fun c =>
  match fault c.executed with
  | none => (.ok (), { c with saved := none, executed := c.executed + 1 })
  | some e => (.error e, { c with executed := c.executed + 1 })

/-- `ROLLBACK`, after the exception `e`.  It can fail itself, which is then the exception that
leaves; it does so only where the failed statement has already undone the transaction. -/
def rollback (e : ε) : Exec (Connection σ) ε α := fun c =>
  (.error ((fault c.executed).getD e),
    { db := c.saved.getD c.db, saved := none, executed := c.executed + 1 })

/-- An operation inside a transaction. -/
def inTransaction (operation : Exec (Connection σ) ε α) : Exec (Connection σ) ε α := do
  begin fault
  orElse (do
    let a ← operation
    commit fault
    pure a) (rollback fault)

/-! ## What the statements do together -/

/-- `m` keeps the transaction open, does what `f` does if it returns, and throws what the storage
or `f` throws. -/
structure Implements (m : Exec (Connection σ) ε α) (f : σ → Except ε (α × σ)) : Prop where
  saved : ∀ c, (m c).2.saved = c.saved
  ok : ∀ c a c', m c = (.ok a, c') → f c.db = .ok (a, c'.db)
  error : ∀ c e c', m c = (.error e, c') → (∃ i, fault i = some e) ∨ f c.db = .error e

variable {fault} {m : Exec (Connection σ) ε α} {f : σ → Except ε (α × σ)}

theorem implements_statement (f : σ → Except ε (α × σ)) :
    Implements fault (statement fault f) f := by
  refine ⟨fun c => ?_, fun c a c' h => ?_, fun c e c' h => ?_⟩
  · rw [statement]
    split <;> rfl
  · rw [statement] at h
    split at h
    · rename_i hf
      cases h
      exact hf
    · cases h
    · cases h
  · rw [statement] at h
    split at h
    · cases h
    · rename_i hf
      cases h
      exact .inr hf
    · rename_i hfault
      cases h
      exact .inl ⟨_, hfault⟩

theorem implements_pure (a : α) :
    Implements fault (pure a : Exec (Connection σ) ε α) fun db => .ok (a, db) := by
  refine ⟨fun _ => rfl, fun c b c' h => ?_, fun c e c' h => ?_⟩
  · cases h
    rfl
  · cases h

theorem implements_raise (e : ε) :
    Implements fault (raise e : Exec (Connection σ) ε α) fun _ => .error e := by
  refine ⟨fun _ => rfl, fun c a c' h => ?_, fun c e' c' h => ?_⟩
  · cases h
  · cases h
    exact .inr rfl

theorem implements_check (r : Except ε α) :
    Implements fault (check fun _ => r : Exec (Connection σ) ε α) fun db => r.map (·, db) := by
  refine ⟨fun _ => rfl, fun c a c' h => ?_, fun c e c' h => ?_⟩
  · cases h
    rfl
  · cases h
    exact .inr rfl

theorem Implements.ite {c : Prop} [Decidable c] {m' : Exec (Connection σ) ε α}
    {f' : σ → Except ε (α × σ)} (h : Implements fault m f) (h' : Implements fault m' f') :
    Implements fault (if c then m else m') fun db => if c then f db else f' db := by
  by_cases hc : c
  · simp only [if_pos hc]
    exact h
  · simp only [if_neg hc]
    exact h'

theorem Implements.bind {k : α → Exec (Connection σ) ε β} {g : α → σ → Except ε (β × σ)}
    (hm : Implements fault m f) (hk : ∀ a, Implements fault (k a) (g a)) :
    Implements fault (m >>= k) fun db => f db >>= fun r => g r.1 r.2 := by
  refine ⟨fun c => ?_, fun c b c' h => ?_, fun c e c' h => ?_⟩
  · have hsaved := hm.saved c
    rw [bind_apply]
    split
    · rename_i a c1 hrun
      rw [hrun] at hsaved
      exact ((hk a).saved c1).trans hsaved
    · rename_i e c1 hrun
      rwa [hrun] at hsaved
  · obtain ⟨a, c1, hrun, hrest⟩ := bind_eq_ok h
    have hf := hm.ok c a c1 hrun
    have hg := (hk a).ok c1 b c' hrest
    show (f c.db >>= fun r => g r.1 r.2) = _
    rw [hf]
    exact hg
  · rw [bind_apply] at h
    split at h
    · rename_i a c1 hrun
      refine ((hk a).error c1 e c' h).imp_right fun hg => ?_
      show (f c.db >>= fun r => g r.1 r.2) = _
      rw [hm.ok c a c1 hrun]
      exact hg
    · rename_i e' c1 hrun
      cases h
      refine (hm.error c e c' hrun).imp_right fun hf => ?_
      show (f c.db >>= fun r => g r.1 r.2) = _
      rw [hf]
      rfl

/-- One after the other. -/
def each (f : β → σ → Except ε (Unit × σ)) : List β → σ → Except ε (Unit × σ)
  | [], db => .ok ((), db)
  | b :: rest, db => f b db >>= fun r => each f rest r.2

theorem each_cons_ok {g : β → σ → Except ε (Unit × σ)} {b : β} {rest : List β} {db db' : σ}
    {u : Unit} (h : each g (b :: rest) db = .ok (u, db')) :
    ∃ db₁, g b db = .ok ((), db₁) ∧ each g rest db₁ = .ok (u, db') := by
  rw [each] at h
  cases hb : g b db with
  | error e =>
    rw [hb] at h
    cases h
  | ok r =>
    rw [hb] at h
    exact ⟨r.2, rfl, h⟩

/-- What each of them keeps is kept. -/
theorem each_invariant {I : σ → Prop} {g : β → σ → Except ε (Unit × σ)} {l : List β}
    (hg : ∀ b ∈ l, ∀ db db', g b db = .ok ((), db') → I db → I db') {db db' : σ} {u : Unit}
    (h : each g l db = .ok (u, db')) (hdb : I db) : I db' := by
  induction l generalizing db with
  | nil =>
    cases h
    exact hdb
  | cons b rest ih =>
    obtain ⟨db₁, hb, hrest⟩ := each_cons_ok h
    exact ih (fun b' hb' => hg b' (List.mem_cons_of_mem b hb')) hrest
      (hg b List.mem_cons_self db db₁ hb hdb)

theorem Implements.forM {k : β → Exec (Connection σ) ε PUnit} {g : β → σ → Except ε (Unit × σ)}
    (h : ∀ b, Implements fault (k b) (g b)) (l : List β) :
    Implements fault (l.forM k) (each g l) := by
  induction l with
  | nil => exact implements_pure ()
  | cons b rest ih => exact (h b).bind fun _ => ih

/-- The same operation, written differently. -/
theorem Implements.congr {g : σ → Except ε (α × σ)} (h : Implements fault m f)
    (hfg : ∀ db, g db = f db) : Implements fault m g := by
  rwa [funext hfg]

/-! ## All or nothing

A connection remembers what the database was like when the transaction began.  As long as it does,
no failure loses anything, and the proof is that every statement in between keeps the memory. -/

section Ends

variable {c c' : Connection σ} {u : Unit} {e : ε}

theorem begin_ok (h : begin fault c = (.ok u, c')) : c'.db = c.db ∧ c'.saved = some c.db := by
  unfold begin at h
  split at h
  · cases h
    exact ⟨rfl, rfl⟩
  · cases h

theorem begin_error (h : begin fault c = (.error e, c')) :
    c'.db = c.db ∧ c'.saved = c.saved ∧ ∃ i, fault i = some e := by
  unfold begin at h
  split at h
  · cases h
  · rename_i hfault
    cases h
    exact ⟨rfl, rfl, _, hfault⟩

theorem commit_ok (h : commit fault c = (.ok u, c')) : c'.db = c.db ∧ c'.Idle := by
  unfold commit at h
  split at h
  · cases h
    exact ⟨rfl, rfl⟩
  · cases h

theorem commit_error (h : commit fault c = (.error e, c')) :
    c'.saved = c.saved ∧ ∃ i, fault i = some e := by
  unfold commit at h
  split at h
  · cases h
  · rename_i hfault
    cases h
    exact ⟨rfl, _, hfault⟩

end Ends

/-- **A transaction that returns** has done what the operation does, and is over.  The commit is the
last thing that can fail, and it has not. -/
theorem Implements.inTransaction_ok (h : Implements fault m f) {c c' : Connection σ} {a : α}
    (hrun : inTransaction fault m c = (.ok a, c')) : f c.db = .ok (a, c'.db) ∧ c'.Idle := by
  obtain ⟨_, c1, hbegin, hrest⟩ := bind_eq_ok hrun
  rw [orElse] at hrest
  split at hrest
  · rename_i b c2 hinner
    cases hrest
    obtain ⟨b', c3, hm, hcommit⟩ := bind_eq_ok hinner
    obtain ⟨_, c4, hcommit, hpure⟩ := bind_eq_ok hcommit
    cases hpure
    obtain ⟨hdb, hidle⟩ := commit_ok hcommit
    rw [hdb, ← (begin_ok hbegin).1]
    exact ⟨h.ok c1 a c3 hm, hidle⟩
  · cases hrest

/-- What fails between the two ends fails while the connection remembers what the database was
like. -/
theorem Implements.inside_error (h : Implements fault m f) {c c' : Connection σ} {e : ε}
    (hrun : (do
      let a ← m
      commit fault
      pure a) c = (.error e, c')) :
    c'.saved = c.saved ∧ ((∃ i, fault i = some e) ∨ f c.db = .error e) := by
  have hsaved := h.saved c
  rw [bind_apply] at hrun
  split at hrun
  · rename_i a c1 hm
    rw [hm] at hsaved
    rw [bind_apply] at hrun
    split at hrun
    · cases hrun
    · rename_i e' c2 hcommit
      cases hrun
      obtain ⟨hsame, hfault⟩ := commit_error hcommit
      exact ⟨hsame.trans hsaved, .inl hfault⟩
  · rename_i e' c1 hm
    cases hrun
    rw [hm] at hsaved
    exact ⟨hsaved, h.error c e c' hm⟩

/-- **A transaction that throws** has changed nothing, and is over.  Whether a statement or the
commit has failed, the rollback restores what was kept aside. -/
theorem Implements.inTransaction_error (h : Implements fault m f) {c c' : Connection σ} {e : ε}
    (hidle : c.Idle) (hrun : inTransaction fault m c = (.error e, c')) :
    c'.db = c.db ∧ c'.Idle ∧ ((∃ i, fault i = some e) ∨ f c.db = .error e) := by
  rw [inTransaction, bind_apply] at hrun
  split at hrun
  · rename_i u c1 hbegin
    obtain ⟨hdb, hsaved⟩ := begin_ok hbegin
    rw [orElse] at hrun
    split at hrun
    · cases hrun
    · rename_i e' c2 hinner
      obtain ⟨hremembers, hcause⟩ := h.inside_error hinner
      rw [hsaved] at hremembers
      rw [hdb] at hcause
      cases hrun
      refine ⟨by rw [hremembers]; rfl, rfl, ?_⟩
      cases hfault : fault c2.executed with
      | none => exact hcause
      | some e'' => exact .inl ⟨_, hfault⟩
  · rename_i e' c1 hbegin
    cases hrun
    obtain ⟨hdb, hsaved, hfault⟩ := begin_error hbegin
    exact ⟨hdb, hsaved.trans hidle, .inl hfault⟩

/-- The two together, as a rule. -/
theorem Implements.wp_inTransaction (h : Implements fault m f) {c : Connection σ} (hidle : c.Idle)
    {Q : α → Connection σ → Prop} {E : ε → Connection σ → Prop}
    (hok : ∀ a c', f c.db = .ok (a, c'.db) → c'.Idle → Q a c')
    (herror : ∀ e c', c'.db = c.db → c'.Idle → E e c') : Wp (inTransaction fault m) Q E c := by
  rw [Wp]
  rcases hrun : inTransaction fault m c with ⟨e | a, c'⟩
  · obtain ⟨hdb, hidle', -⟩ := h.inTransaction_error hidle hrun
    exact herror e c' hdb hidle'
  · obtain ⟨hf, hidle'⟩ := h.inTransaction_ok hrun
    exact hok a c' hf hidle'

/-! ## Calls -/

variable (fault) in
/-- A call on a connection without an open transaction: it does what `f` does, or it throws and has
changed nothing. -/
def Atomic (m : Exec (Connection σ) ε α) (f : σ → Except ε (α × σ)) : Prop :=
  ∀ c : Connection σ, c.Idle → Wp m (fun a c' => f c.db = .ok (a, c'.db) ∧ c'.Idle)
    (fun e c' => c'.db = c.db ∧ c'.Idle ∧ ((∃ i, fault i = some e) ∨ f c.db = .error e)) c

theorem statement_error {c c' : Connection σ} {e : ε} (h : statement fault f c = (.error e, c')) :
    c'.db = c.db := by
  rw [statement] at h
  split at h
  · cases h
  · cases h
    rfl
  · cases h
    rfl

/-- A statement by itself. -/
theorem atomic_statement (f : σ → Except ε (α × σ)) : Atomic fault (statement fault f) f := by
  intro c hidle
  have himplements : Implements fault (statement fault f) f := implements_statement f
  have hsaved := himplements.saved c
  rw [Wp]
  rcases hrun : statement fault f c with ⟨e | a, c'⟩
  · rw [hrun] at hsaved
    exact ⟨statement_error hrun, hsaved.trans hidle, himplements.error c e c' hrun⟩
  · rw [hrun] at hsaved
    exact ⟨himplements.ok c a c' hrun, hsaved.trans hidle⟩

/-- A transaction. -/
theorem Implements.atomic (h : Implements fault m f) : Atomic fault (inTransaction fault m) f := by
  intro c hidle
  rw [Wp]
  rcases hrun : inTransaction fault m c with ⟨e | a, c'⟩
  · exact h.inTransaction_error hidle hrun
  · exact h.inTransaction_ok hrun

/-- A transaction inside of another is not opened: what is atomic by itself is so in both places. -/
theorem Implements.of_idle {m' : Exec (Connection σ) ε α} (hopen : Implements fault m f)
    (hidle : Atomic fault m' f) : Implements fault (fun c =>
      if c.saved.isNone then m' c else m c) f := by
  refine ⟨fun c => ?_, fun c a c' h => ?_, fun c e c' h => ?_⟩
  · split
    · rename_i hnone
      have hc : c.Idle := Option.isNone_iff_eq_none.mp hnone
      have hwp := hidle c hc
      rw [Wp] at hwp
      rcases hrun : m' c with ⟨e | a, c'⟩
      · rw [hrun] at hwp
        exact hwp.2.1.trans hc.symm
      · rw [hrun] at hwp
        exact hwp.2.trans hc.symm
    · exact hopen.saved c
  · split at h
    · rename_i hnone
      have hwp := hidle c (Option.isNone_iff_eq_none.mp hnone)
      rw [Wp, h] at hwp
      exact hwp.1
    · exact hopen.ok c a c' h
  · split at h
    · rename_i hnone
      have hwp := hidle c (Option.isNone_iff_eq_none.mp hnone)
      rw [Wp, h] at hwp
      exact hwp.2.2
    · exact hopen.error c e c' h

/-- The checks come first. -/
theorem Atomic.check_bind {β : Type} {r : Except ε β} (h : Atomic fault m f) :
    Atomic fault (do
      let _ ← check fun _ => r
      m) fun db => r >>= fun _ => f db := by
  intro c hidle
  rw [wp_bind]
  refine wp_check (fun e herror => ?_) fun _ hok => ?_
  · rw [herror]
    exact ⟨rfl, hidle, .inr rfl⟩
  · rw [hok]
    exact h c hidle

theorem Atomic.congr {g : σ → Except ε (α × σ)} (h : Atomic fault m f) (hfg : ∀ db, g db = f db) :
    Atomic fault m g := by
  rwa [funext hfg]

/-- What a call returns can be left. -/
theorem Atomic.map {β : Type} (h : Atomic fault m f) (k : α → β) :
    Atomic fault (do
      let a ← m
      pure (k a)) fun db => (f db).map fun r => (k r.1, r.2) := by
  intro c hidle
  rw [wp_bind]
  refine wp_mono (h c hidle) (fun a c' hok => ⟨?_, hok.2⟩) fun e c' herror =>
    ⟨herror.1, herror.2.1, herror.2.2.imp_right fun hf => ?_⟩
  · exact congrArg (Except.map _) hok.1
  · exact congrArg (Except.map _) hf

end Transaction
