import Mathlib

/-!
# Replacing a shared register by two-phase commit

Two parties hold a copy of the same register and may only replace it together.  Either of them may
propose a new content; the other one prepares, the proposer decides, and both install.  What a party
has written down survives a crash, messages are delivered in order but may be lost, and the proposer
repeats itself until it is answered.

`Move` lists what a party can do: what it has written down and its content before and after, the
message it takes from its queue if there is one, and the messages it sends.  `Agreed` is the
invariant that makes the protocol safe, over both parties and both queues; `Agreed.move`,
`Agreed.forget` and `Agreed.symm` cover every way the system can change.

A proposal is identified by its whole text, and a new one has to be new: `used` is a set of texts
that a party has had a chance to use, and the sets of the two parties are disjoint.

## How the proof goes

The two parties play both roles at the same time, each for its own proposals, so the invariant is
stated for one direction (`Toward`: what holds of the proposals of `X`) and the system is two copies
of it.  A proposal of `X` is in one of three stages.  While it is open nobody has installed it.
Once it is decided the other party has either prepared it, or accepted it, or installed it, and
cannot be talked into anything else.  Once it is closed nothing about it is on its way any more that
could start it again.

Each stage is a statement about the other party's record and the two queues, and each has two
lemmas: what the proposer's move makes of it, and what the other party's does.  The queues enter
only through membership and order, and losing messages keeps both; that is why `forget` needs no
cases.

What the protocol does *not* give is in the last section.  A party may give up a proposal that the
other one has prepared, or hold on to a record that nobody will ever ask it about; `Attended` and
`Retained` say what it would take, and their lemmas say which moves have to be excluded.
-/

set_option autoImplicit false

namespace TwoPhase

universe u v

/-- The messages about a proposal. -/
inductive Kind where
  | propose
  | ack
  | commit
  | done
  | reject
  deriving DecidableEq

/-- What a party has written down: nothing, its own proposal in one of three phases, or a proposal
of the other party in one of three phases. -/
inductive Record (M : Type u) where
  | idle
  | proposed (m : M)
  | decided (m : M)
  | finished (m : M)
  | prepared (m : M)
  | accepted (m : M)
  | settled (m : M)

/-- A party: what it has written down and its copy of the register. -/
structure Party (M : Type u) (κ : Type v) where
  record : Record M
  content : κ

variable {M : Type u} {κ : Type v}

namespace Record

/-- A negotiation is under way. -/
inductive Pending : Record M → Prop
  | proposed (m : M) : Pending (.proposed m)
  | decided (m : M) : Pending (.decided m)
  | prepared (m : M) : Pending (.prepared m)
  | accepted (m : M) : Pending (.accepted m)

/-- The record is about the party's own proposal `m`. -/
inductive Own (m : M) : Record M → Prop
  | proposed : Own m (.proposed m)
  | decided : Own m (.decided m)
  | finished : Own m (.finished m)

/-- The record is about the other party's proposal `m`. -/
inductive Guest (m : M) : Record M → Prop
  | prepared : Guest m (.prepared m)
  | accepted : Guest m (.accepted m)
  | settled : Guest m (.settled m)

/-- The party's own proposal `m` is still open. -/
def Open (m : M) (r : Record M) : Prop := r = .proposed m ∨ r = .decided m

theorem Open.own {m : M} {r : Record M} (h : r.Open m) : r.Own m := by
  rcases h with rfl | rfl
  · exact .proposed
  · exact .decided

end Record

/-- What a party can do with the message `i`, or without one.  The last argument is what it sends;
`fresh` are the proposals it may make up. -/
inductive Move (target : M → κ) (fresh : Set M) :
    Party M κ → Option (Kind × M) → Party M κ → List (Kind × M) → Prop
  | idle {r c i} : Move target fresh ⟨r, c⟩ i ⟨r, c⟩ []
  | retry {m c i} : Move target fresh ⟨.proposed m, c⟩ i ⟨.proposed m, c⟩ [(.propose, m)]
  | propose {r c m i out} (hr : ¬ r.Pending) (hm : m ∈ fresh)
      (hout : ∀ a ∈ out, a = (Kind.propose, m)) :
      Move target fresh ⟨r, c⟩ i ⟨.proposed m, c⟩ out
  | install {m c c' i out} (hc : c' = c ∨ c' = target m) (hout : ∀ a ∈ out, a = (Kind.commit, m)) :
      Move target fresh ⟨.decided m, c⟩ i ⟨.decided m, c'⟩ out
  | clear {m c} : Move target fresh ⟨.proposed m, c⟩ (some (.reject, m)) ⟨.idle, c⟩ []
  | decide {m c c' out} (hc : c' = c ∨ c' = target m) (hout : ∀ a ∈ out, a = (Kind.commit, m)) :
      Move target fresh ⟨.proposed m, c⟩ (some (.ack, m)) ⟨.decided m, c'⟩ out
  | receipt {r m c c'} (hr : r.Open m) (hc : c' = c ∨ c' = target m) :
      Move target fresh ⟨r, c⟩ (some (.done, m)) ⟨r, c'⟩ []
  | finish {r m c} (hr : r.Open m) :
      Move target fresh ⟨r, c⟩ (some (.done, m)) ⟨.finished m, target m⟩ []
  | turnDown {r m c} : Move target fresh ⟨r, c⟩ (some (.propose, m)) ⟨r, c⟩ [(.reject, m)]
  | prepare {r m c} (hr : ¬ r.Pending) :
      Move target fresh ⟨r, c⟩ (some (.propose, m)) ⟨.prepared m, c⟩ [(.ack, m)]
  | answer {r m c} (hr : r = .prepared m ∨ r = .accepted m) :
      Move target fresh ⟨r, c⟩ (some (.propose, m)) ⟨r, c⟩ [(.ack, m)]
  | accept {r m c c'} (hr : r = .prepared m ∨ r = .accepted m) (hc : c' = c ∨ c' = target m) :
      Move target fresh ⟨r, c⟩ (some (.commit, m)) ⟨.accepted m, c'⟩ []
  | settle {r m c} (hr : r = .prepared m ∨ r = .accepted m) :
      Move target fresh ⟨r, c⟩ (some (.commit, m)) ⟨.settled m, target m⟩ [(.done, m)]
  | again {m c k} (hk : k = .propose ∨ k = .commit) :
      Move target fresh ⟨.settled m, c⟩ (some (k, m)) ⟨.settled m, c⟩ [(.done, m)]

variable {target : M → κ} {fresh : Set M} {used used' : Set M} {X X' Y : Party M κ}
  {i : Option (Kind × M)} {out xy yx yx' : List (Kind × M)}

theorem Move.mono {fresh' : Set M} (h : Move target fresh X i X' out) (hsub : fresh ⊆ fresh') :
    Move target fresh' X i X' out := by
  cases h with
  | propose hr hm hout => exact .propose hr (hsub hm) hout
  | _ => constructor <;> assumption

theorem Move.decide_of_open {r : Record M} {m : M} {c c' : κ} (hr : r.Open m)
    (hc : c' = c ∨ c' = target m) (hout : ∀ a ∈ out, a = (Kind.commit, m)) :
    Move target fresh ⟨r, c⟩ (some (.ack, m)) ⟨.decided m, c'⟩ out := by
  rcases hr with rfl | rfl
  · exact .decide hc hout
  · exact .install hc hout

/-- Without a message, an open proposal can only be repeated. -/
theorem Move.of_proposed {m : M} (h : Move target fresh X none X' out)
    (hX : X.record = .proposed m) : X' = X ∧ ∀ a ∈ out, a = (Kind.propose, m) := by
  cases h with
  | idle => exact ⟨rfl, nofun⟩
  | retry =>
    cases hX
    exact ⟨rfl, by simp⟩
  | propose hr =>
    cases hX
    exact absurd (.proposed m) hr
  | install => cases hX

/-- **A decision stands**: it is only left by installing it.  No message and no failure takes it
back. -/
theorem Move.of_decided {m : M} (h : Move target fresh X i X' out) (hX : X.record = .decided m) :
    X'.record = .decided m ∨ X'.record = .finished m ∧ X'.content = target m := by
  cases h with
  | idle => exact .inl hX
  | install => exact .inl hX
  | receipt => exact .inl hX
  | turnDown => exact .inl hX
  | propose hr =>
    cases hX
    exact absurd (.decided m) hr
  | prepare hr =>
    cases hX
    exact absurd (.decided m) hr
  | finish hr =>
    cases hX
    rcases hr with hr | hr
    · cases hr
    · cases hr
      exact .inr ⟨rfl, rfl⟩
  | answer => exact .inl hX
  | accept hr => rcases hr with rfl | rfl <;> cases hX
  | settle hr => rcases hr with rfl | rfl <;> cases hX
  | retry => cases hX
  | clear => cases hX
  | decide => cases hX
  | again => cases hX

/-! ## Queues -/

theorem pairwise_of_notMem {α : Type*} {x : α} {l : List α} {P : α → Prop} (h : x ∉ l) :
    l.Pairwise fun a b => a = x → P b := by
  refine List.pairwise_of_forall_mem_list ?_
  rintro a ha b - rfl
  exact absurd ha h

theorem pairwise_append_of_forall {α : Type*} {R : α → α → Prop} {l l' : List α}
    (h : l.Pairwise R) (hl' : ∀ b ∈ l', ∀ a, R a b) : (l ++ l').Pairwise R := by
  refine List.pairwise_append.mpr ⟨h, List.pairwise_of_forall_mem_list ?_, ?_⟩
  · exact fun a _ b hb => hl' b hb a
  · exact fun a _ b hb => hl' b hb a

/-! ## One proposal -/

/-- `p` has been proposed and not decided: nobody has installed it, and the proposal the other party
hears of last is `p`. -/
structure Opened (p : M) (Y : Party M κ) (xy yx : List (Kind × M)) : Prop where
  commit : (.commit, p) ∉ xy
  done : (.done, p) ∉ yx
  guest : Y.record.Guest p → Y.record = .prepared p
  ack : (.ack, p) ∈ yx → Y.record = .prepared p
  order : xy.Pairwise fun a b => a = (.propose, p) → b.1 = .propose → b.2 = p
  latest : Y.record = .prepared p → ∀ q, (.propose, q) ∈ xy → q = p

/-- `p` has been decided and the decision is not finished. -/
inductive Decided (target : M → κ) (p : M) (Y : Party M κ) (xy yx : List (Kind × M)) : Prop
  /-- The other party has not installed it, and cannot be asked to prepare anything once it has. -/
  | awaiting (hY : Y.record = .prepared p ∨ Y.record = .accepted p) (hdone : (.done, p) ∉ yx)
      (hpropose : ∀ q, (.propose, q) ∈ xy → q = p)
      (horder : xy.Pairwise fun a b => a = (.commit, p) → b.1 ≠ .propose)
  /-- The other party has installed it, and whatever it proposed since is still open. -/
  | installed (hY : Y.record = .idle ∨ Y.record = .settled p ∨ ∃ q, Y.record = .proposed q)
      (hcontent : Y.content = target p) (hpropose : ∀ q, (.propose, q) ∉ xy)

/-- `p` is no longer open at its proposer. -/
inductive Closed (p : M) (Y : Party M κ) (xy : List (Kind × M)) : Prop
  /-- It was never decided. -/
  | dead (hcommit : (.commit, p) ∉ xy) (hY : Y.record.Guest p → Y.record = .prepared p)
  /-- It has been installed by both. -/
  | done (hpropose : (.propose, p) ∉ xy) (hY : Y.record.Guest p → Y.record = .settled p)

section Acceptor

variable {p : M} {Y' : Party M κ} {xy' : List (Kind × M)}

theorem Opened.acceptor (h : Opened p Y xy yx) (hmove : Move target fresh Y i Y' out)
    (hxy : xy = i.toList ++ xy') : Opened p Y' xy' (yx ++ out) := by
  subst hxy
  obtain ⟨hcommit, hdone, hguest, hack, horder, hlatest⟩ := h
  cases hmove <;> constructor <;> grind [Record.Guest, Record.Pending, Record.Open]

theorem Decided.acceptor (h : Decided target p Y xy yx) (hmove : Move target fresh Y i Y' out)
    (hxy : xy = i.toList ++ xy')
    (hown : ∀ q, Y.record = .proposed q → (.ack, q) ∉ xy ∧ (.done, q) ∉ xy) :
    Decided target p Y' xy' (yx ++ out) := by
  subst hxy
  cases h with
  | awaiting hY hdone hpropose horder =>
    cases hmove with
    | settle hr => refine .installed ?_ ?_ ?_ <;> grind
    | _ => refine .awaiting ?_ ?_ ?_ ?_ <;> grind [Record.Pending, Record.Open]
  | installed hY hcontent hpropose =>
    cases hmove <;> refine .installed ?_ ?_ ?_ <;> grind [Record.Open]

theorem Closed.acceptor (h : Closed p Y xy) (hmove : Move target fresh Y i Y' out)
    (hxy : xy = i.toList ++ xy') : Closed p Y' xy' := by
  subst hxy
  cases h with
  | dead hcommit hY =>
    cases hmove <;> refine .dead ?_ ?_ <;> grind [Record.Guest]
  | done hpropose hY =>
    cases hmove <;> refine .done ?_ ?_ <;> grind [Record.Guest]

end Acceptor

/-! ## All proposals of one party -/

/-- What holds of the proposals of `X`, which has used the texts `used`. -/
structure Toward (target : M → κ) (used : Set M) (X Y : Party M κ) (xy yx : List (Kind × M)) :
    Prop where
  own : ∀ p, X.record.Own p → p ∈ used
  guest : ∀ p, Y.record.Guest p → p ∈ used
  request : ∀ p, (.propose, p) ∈ xy ∨ (.commit, p) ∈ xy → p ∈ used
  answer : ∀ p, (.ack, p) ∈ yx ∨ (.done, p) ∈ yx → p ∈ used
  opened : ∀ p, X.record = .proposed p → Opened p Y xy yx
  decided : ∀ p, X.record = .decided p → Decided target p Y xy yx
  closed : ∀ p, ¬ X.record.Open p → Closed p Y xy

/-- A proposal of a text that was never used starts with nobody having heard of it. -/
theorem Toward.opened_of_notMem (h : Toward target used X Y xy yx) {p : M} (hp : p ∉ used)
    (hout : ∀ a ∈ out, a = (Kind.propose, p)) : Opened p Y (xy ++ out) yx := by
  have hguest : ¬ Y.record.Guest p := fun hg => hp (h.guest p hg)
  have hpropose : (.propose, p) ∉ xy := fun hm => hp (h.request p (.inl hm))
  have hcommit : (.commit, p) ∉ xy := fun hm => hp (h.request p (.inr hm))
  have hack : (.ack, p) ∉ yx := fun hm => hp (h.answer p (.inl hm))
  have hdone : (.done, p) ∉ yx := fun hm => hp (h.answer p (.inr hm))
  refine ⟨by grind, hdone, fun hg => absurd hg hguest, fun hm => absurd hm hack, ?_, fun hY => ?_⟩
  · refine pairwise_append_of_forall (pairwise_of_notMem hpropose) fun b hb a _ _ => ?_
    rw [hout b hb]
  · exact absurd (hY ▸ .prepared) hguest

theorem Toward.opened_proposer (h : Toward target used X Y xy yx)
    (hmove : Move target ( used' \ used) X i X' out) (hyx : yx = i.toList ++ yx') {p : M}
    (hX' : X'.record = .proposed p) : Opened p Y (xy ++ out) yx' := by
  subst hyx
  have hopened := h.opened p
  cases hmove with
  | propose hr hm hout =>
    cases hX'
    have := h.opened_of_notMem hm.2 hout
    obtain ⟨hcommit, hdone, hguest, hack, horder, hlatest⟩ := this
    constructor <;> grind
  | _ =>
    first
    | cases hX'; done
    | cases hX'
      obtain ⟨hcommit, hdone, hguest, hack, horder, hlatest⟩ := hopened rfl
      constructor <;> grind

theorem Toward.decided_proposer (h : Toward target used X Y xy yx)
    (hmove : Move target ( used' \ used) X i X' out) (hyx : yx = i.toList ++ yx') {p : M}
    (hX' : X'.record = .decided p) : Decided target p Y (xy ++ out) yx' := by
  subst hyx
  have hdecided := h.decided p
  have hopened := h.opened p
  cases hmove with
  | decide hc hout =>
    cases hX'
    obtain ⟨hcommit, hdone, hguest, hack, horder, hlatest⟩ := hopened rfl
    have hY : Y.record = .prepared p := hack (by simp)
    refine .awaiting (.inl hY) (by grind) (by grind) ?_
    refine pairwise_append_of_forall (pairwise_of_notMem hcommit) fun b hb a _ => ?_
    simp [hout b hb]
  | _ =>
    first
    | cases hX'; done
    | cases hX'
      cases hdecided rfl with
      | awaiting hY hdone hpropose horder =>
        refine .awaiting hY (by grind) (by grind) (pairwise_append_of_forall horder ?_)
        grind
      | installed hY hcontent hpropose => refine .installed hY hcontent (by grind)

theorem Toward.closed_proposer (h : Toward target used X Y xy yx)
    (hmove : Move target ( used' \ used) X i X' out) (hyx : yx = i.toList ++ yx') {p : M}
    (hX' : ¬ X'.record.Open p) : Closed p Y (xy ++ out) := by
  subst hyx
  have hclosed := h.closed p
  have hopened := h.opened p
  have hdecided := h.decided p
  cases hmove with
  | @clear m =>
    by_cases hp : Record.Open p (.proposed m)
    · obtain ⟨hcommit, hdone, hguest, hack, horder, hlatest⟩ := hopened (by grind [Record.Open])
      refine .dead ?_ ?_ <;> grind
    · cases hclosed hp with
      | dead hcommit hY => refine .dead ?_ ?_ <;> grind
      | done hpropose hY => refine .done ?_ ?_ <;> grind
  | @finish r m c hr =>
    by_cases hp : r.Open p
    · obtain rfl : m = p := by grind [Record.Open]
      rcases hr with rfl | rfl
      · exact absurd (by simp) (hopened rfl).done
      · cases hdecided rfl with
        | awaiting hY hdone hpropose horder => exact absurd (by simp) hdone
        | installed hY hcontent hpropose => refine .done ?_ ?_ <;> grind [Record.Guest]
    · cases hclosed hp with
      | dead hcommit hY => refine .dead ?_ ?_ <;> grind
      | done hpropose hY => refine .done ?_ ?_ <;> grind
  | _ =>
      cases hclosed (by grind [Record.Open, Record.Pending]) with
      | dead hcommit hY => refine .dead ?_ ?_ <;> grind [Record.Open]
      | done hpropose hY => refine .done ?_ ?_ <;> grind [Record.Open]

theorem Toward.proposer (h : Toward target used X Y xy yx)
    (hmove : Move target ( used' \ used) X i X' out) (hused : used ⊆ used')
    (hyx : yx = i.toList ++ yx') : Toward target used' X' Y (xy ++ out) yx' := by
  refine ⟨?_, fun p hp => hused (h.guest p hp), ?_, fun p hp => hused (h.answer p ?_),
    fun p => h.opened_proposer hmove hyx, fun p => h.decided_proposer hmove hyx,
    fun p => h.closed_proposer hmove hyx⟩
  · have hown := h.own
    cases hmove <;> grind [Record.Own, Record.Open]
  · have hown := h.own
    have hrequest := h.request
    cases hmove <;> grind [Record.Own, Record.Open]
  · rw [hyx]
    simp only [List.mem_append]
    exact hp.imp .inr .inr

/-- The other party's moves.  It does not decide or finish a proposal of its own while one of `X`
is decided, since nobody acknowledged it. -/
theorem Toward.acceptor {Y' : Party M κ} {xy' : List (Kind × M)}
    (h : Toward target used X Y xy yx) (hmove : Move target fresh Y i Y' out)
    (hxy : xy = i.toList ++ xy')
    (hown : ∀ p q, X.record = .decided p → Y.record = .proposed q →
      (.ack, q) ∉ xy ∧ (.done, q) ∉ xy) :
    Toward target used X Y' xy' (yx ++ out) := by
  have hguest := h.guest
  have hrequest := h.request
  have hanswer := h.answer
  refine ⟨h.own, ?_, fun p hp => h.request p ?_, ?_, fun p hp => (h.opened p hp).acceptor hmove hxy,
    fun p hp => (h.decided p hp).acceptor hmove hxy fun q hq => hown p q hp hq,
    fun p hp => (h.closed p hp).acceptor hmove hxy⟩
  · subst hxy
    cases hmove <;> grind [Record.Guest]
  · rw [hxy]
    simp only [List.mem_append]
    exact hp.imp .inr .inr
  · subst hxy
    cases hmove <;> grind [Record.Guest]

theorem Toward.forget {xy' : List (Kind × M)} (h : Toward target used X Y xy yx)
    (hxy : xy'.Sublist xy) (hyx : yx'.Sublist yx) : Toward target used X Y xy' yx' where
  own := h.own
  guest := h.guest
  request p hp := h.request p (hp.imp (hxy.subset ·) (hxy.subset ·))
  answer p hp := h.answer p (hp.imp (hyx.subset ·) (hyx.subset ·))
  opened p hp := by
    obtain ⟨hcommit, hdone, hguest, hack, horder, hlatest⟩ := h.opened p hp
    exact ⟨fun hm => hcommit (hxy.subset hm), fun hm => hdone (hyx.subset hm), hguest,
      fun hm => hack (hyx.subset hm), horder.sublist hxy,
        fun hY q hq => hlatest hY q (hxy.subset hq)⟩
  decided p hp := by
    cases h.decided p hp with
    | awaiting hY hdone hpropose horder =>
      exact .awaiting hY (fun hm => hdone (hyx.subset hm)) (fun q hq => hpropose q (hxy.subset hq))
        (horder.sublist hxy)
    | installed hY hcontent hpropose =>
      exact .installed hY hcontent fun q hq => hpropose q (hxy.subset hq)
  closed p hp := by
    cases h.closed p hp with
    | dead hcommit hY => exact .dead (fun hm => hcommit (hxy.subset hm)) hY
    | done hpropose hY => exact .done (fun hm => hpropose (hxy.subset hm)) hY

/-! ## The system -/

/-- The two parties, the texts they have used and the messages in flight between them. -/
structure Linked (target : M → κ) (used used' : Set M) (X Y : Party M κ)
    (xy yx : List (Kind × M)) : Prop where
  toward : Toward target used X Y xy yx
  back : Toward target used' Y X yx xy
  disjoint : Disjoint used used'

namespace Linked

variable {usedY : Set M}

theorem symm (h : Linked target used used' X Y xy yx) : Linked target used' used Y X yx xy :=
  ⟨h.back, h.toward, h.disjoint.symm⟩

/-- The system starts with nothing written down. -/
theorem init (hX : X.record = .idle) (hY : Y.record = .idle) (hdisjoint : Disjoint used used') :
    Linked target used used' X Y [] [] := by
  have htoward : ∀ {used : Set M} {X Y : Party M κ}, X.record = .idle → Y.record = .idle →
      Toward target used X Y [] [] := by
    intro used X Y hX hY
    constructor <;> grind [Record.Own, Record.Guest, Closed]
  exact ⟨htoward hX hY, htoward hY hX, hdisjoint⟩

/-- A party that is asked to install has a partner that has decided. -/
theorem decided_of_commit (h : Linked target used usedY X Y xy yx) {m : M}
    (hX : X.record = .prepared m ∨ X.record = .accepted m) (hm : (.commit, m) ∈ yx) :
    Y.record = .decided m := by
  by_contra hY
  by_cases hp : Y.record = .proposed m
  · exact (h.back.opened m hp).commit hm
  · cases h.back.closed m (by simp [Record.Open, hp, hY]) with
    | dead hcommit hguest => exact hcommit hm
    | done hpropose hguest => grind [Record.Guest]

/-- A proposer that gets a receipt has decided, and the other party has installed. -/
theorem content_of_done (h : Linked target used usedY X Y xy yx) {m : M}
    (hX : X.record.Open m) (hm : (.done, m) ∈ yx) :
    X.record = .decided m ∧ Y.content = target m := by
  rcases hX with hX | hX
  · exact absurd hm (h.toward.opened m hX).done
  · cases h.toward.decided m hX with
    | awaiting hY hdone hpropose horder => exact absurd hm hdone
    | installed hY hcontent hpropose => exact ⟨hX, hcontent⟩

/-- **One step of one party.** -/
theorem move (h : Linked target used usedY X Y xy yx)
    (hmove : Move target ( used' \ used) X i X' out) (hused : used ⊆ used')
    (hdisjoint : Disjoint used' usedY) (hyx : yx = i.toList ++ yx') :
    Linked target used' usedY X' Y (xy ++ out) yx' := by
  refine ⟨h.toward.proposer hmove hused hyx, h.back.acceptor hmove hyx ?_, hdisjoint⟩
  -- a message about `q` would mean that the other party has prepared `q`
  intro p q hY hX
  have hopened := h.toward.opened q hX
  refine ⟨fun hack => ?_, hopened.done⟩
  have := hopened.ack hack
  rw [hY] at this
  cases this

/-- Messages may be lost, all of them included. -/
theorem forget {xy' yx' : List (Kind × M)} (h : Linked target used usedY X Y xy yx)
    (hxy : xy'.Sublist xy) (hyx : yx'.Sublist yx) : Linked target used usedY X Y xy' yx' :=
  ⟨h.toward.forget hxy hyx, h.back.forget hyx hxy, h.disjoint⟩

end Linked

/-! ## What follows -/

/-- The contents are equal as long as nothing is decided and unfinished. -/
def Agreed (X Y : Party M κ) : Prop :=
  (∀ p, X.record ≠ .decided p) → (∀ p, Y.record ≠ .decided p) → X.content = Y.content

theorem Agreed.symm (h : Agreed X Y) : Agreed Y X := fun hY hX => (h hX hY).symm

/-- Nobody has prepared, or can still be asked to prepare, a proposal that is not open. -/
structure Attended (X Y : Party M κ) (xy : List (Kind × M)) : Prop where
  propose : ∀ p, (.propose, p) ∈ xy → X.record.Open p
  prepared : ∀ p, Y.record = .prepared p → X.record.Open p

/-- The other party still has what has been decided. -/
def Retained (X Y : Party M κ) : Prop := ∀ p, X.record = .decided p → Y.record.Guest p

namespace Linked

variable {usedY : Set M}

/-- **The contents agree** after every move.  This is what the protocol is for; the other clauses of
the invariant are there to make it inductive. -/
theorem agreed_move (h : Linked target used usedY X Y xy yx) (hagreed : Agreed X Y)
    (hmove : Move target fresh X i X' out) (hyx : yx = i.toList ++ yx') : Agreed X' Y := by
  intro hX' hY
  have hmem : ∀ m, i = some m → m ∈ yx := by
    rintro m rfl
    simp [hyx]
  cases hmove with
  | propose hr =>
    refine hagreed (fun p hp => ?_) hY
    cases hp
    exact hr (.decided p)
  | prepare hr =>
    refine hagreed (fun p hp => ?_) hY
    cases hp
    exact hr (.decided p)
  | install => exact absurd rfl (hX' _)
  | decide => exact absurd rfl (hX' _)
  | receipt hr => exact absurd (h.content_of_done hr (hmem _ rfl)).1 (hX' _)
  | finish hr => exact (h.content_of_done hr (hmem _ rfl)).2.symm
  | accept hr => exact absurd (h.decided_of_commit hr (hmem _ rfl)) (hY _)
  | settle hr => exact absurd (h.decided_of_commit hr (hmem _ rfl)) (hY _)
  | clear => exact hagreed nofun hY
  | _ => exact hagreed hX' hY

/-- A proposal is attended to, unless it is given up while somebody has prepared it or may still be
asked to. -/
theorem attended_proposer (h : Linked target used usedY X Y xy yx) (ha : Attended X Y xy)
    (hmove : Move target fresh X i X' out) (hyx : yx = i.toList ++ yx')
    (hreject : ∀ m, i = some (.reject, m) → X.record = .proposed m →
      Y.record ≠ .prepared m ∧ (.propose, m) ∉ xy) : Attended X' Y (xy ++ out) := by
  obtain ⟨hpropose, hprepared⟩ := ha
  have hnone : ¬ X.record.Pending → (∀ p, (.propose, p) ∉ xy) ∧ ∀ p, Y.record ≠ .prepared p := by
    intro hX
    have hclosed : ∀ p, ¬ X.record.Open p := by
      rintro p (hp | hp) <;> rw [hp] at hX
      · exact hX (.proposed p)
      · exact hX (.decided p)
    exact ⟨fun p hp => hclosed p (hpropose p hp), fun p hp => hclosed p (hprepared p hp)⟩
  cases hmove with
  | propose hr hm hout =>
    obtain ⟨hno, hno'⟩ := hnone hr
    constructor <;> grind [Record.Open]
  | prepare hr =>
    obtain ⟨hno, hno'⟩ := hnone hr
    constructor <;> grind
  | clear =>
    obtain ⟨hno, hno'⟩ := hreject _ rfl rfl
    constructor <;> grind [Record.Open]
  | @finish r m c hr =>
    -- the other party has installed the decision and was not asked for anything else
    obtain ⟨rfl, -⟩ := h.content_of_done hr (by simp [hyx])
    cases h.toward.decided m rfl with
    | awaiting hY hdone => exact absurd (by simp [hyx]) hdone
    | installed hY hcontent hno => constructor <;> grind
  | decide hc hout => constructor <;> grind [Record.Open]
  | accept hr => constructor <;> grind [Record.Open]
  | settle hr => constructor <;> grind [Record.Open]
  | _ => constructor <;> grind [Record.Open]

theorem retained_proposer (h : Linked target used usedY X Y xy yx) (hr : Retained X Y)
    (hmove : Move target fresh X i X' out) (hyx : yx = i.toList ++ yx') : Retained X' Y := by
  intro p hp
  cases hmove with
  | decide =>
    cases hp
    rw [(h.toward.opened p rfl).ack (by simp [hyx])]
    exact .prepared
  | _ =>
    first
    | exact hr p hp
    | cases hp

/-- What has been decided is retained, unless the other party makes a proposal of its own in place
of the receipt. -/
theorem retained_acceptor {Y' : Party M κ} {xy' : List (Kind × M)}
    (h : Linked target used usedY X Y xy yx) (hretained : Retained X Y)
    (hmove : Move target fresh Y i Y' out) (hxy : xy = i.toList ++ xy')
    (hfresh : ∀ p, X.record = .decided p → Y.record = .settled p → fresh = ∅) : Retained X Y' := by
  intro p hp
  have hguest := hretained p hp
  have hdecided := h.toward.decided p hp
  cases hmove with
  | propose hr hm =>
    cases hguest with
    | prepared => exact absurd (.prepared p) hr
    | accepted => exact absurd (.accepted p) hr
    | settled =>
      rw [hfresh p hp rfl] at hm
      exact absurd hm (Set.notMem_empty _)
  | @prepare r m c hr =>
    cases hdecided with
    | awaiting hY =>
      rcases hY with rfl | rfl
      · exact absurd (.prepared p) hr
      · exact absurd (.accepted p) hr
    | installed hY hcontent hpropose => exact absurd (by simp [hxy]) (hpropose m)
  | accept hr => rcases hr with rfl | rfl <;> cases hguest <;> exact .accepted
  | settle hr => rcases hr with rfl | rfl <;> cases hguest <;> exact .settled
  | clear => cases hguest
  | decide => cases hguest
  | finish hr => rcases hr with rfl | rfl <;> cases hguest
  | _ => exact hguest

end Linked

theorem Attended.acceptor {Y' : Party M κ} {xy' : List (Kind × M)} (h : Attended X Y xy)
    (hmove : Move target fresh Y i Y' out) (hxy : xy = i.toList ++ xy') : Attended X Y' xy' := by
  obtain ⟨hpropose, hprepared⟩ := h
  subst hxy
  refine ⟨fun p hp => hpropose p (List.mem_append_right _ hp), ?_⟩
  cases hmove <;> grind

theorem Attended.forget {xy' : List (Kind × M)} (h : Attended X Y xy) (hxy : xy'.Sublist xy) :
    Attended X Y xy' :=
  ⟨fun p hp => h.propose p (hxy.subset hp), h.prepared⟩

end TwoPhase
