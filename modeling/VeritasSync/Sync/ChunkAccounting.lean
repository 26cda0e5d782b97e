import VeritasSync.Lib.Run
import VeritasSync.Sync.ChunkLedger
import VeritasSync.Sync.Converged
import VeritasSync.Sync.Footprint

/-!
# The chunk accounts of a receiving node, over its runs

A `Fetcher` is a receiving node as far as its downloads are concerned: it begins downloads, it
accepts chunks, and it does other things — pumps, restarts — that neither begin nor finish one.
What is shown of any run of a `Fetcher` that keeps its books (`Fetcher.BooksKept`) is then shown of
the one-way node and of the bidirectional node, whose member functions are looked at one by one.

A run starts from a node that has just been constructed, over any table, and is any list of events:
chunks in any order, more than once, for a download or for none, valid or not.  That the storage
does what it is told is assumed only where `Commit` is counted.

The two nodes are separate classes that keep the same books in the same way, down to the names of
the members.  They share no code.  So the argument is given once, for an interface, and the
interface is implemented twice; the two implementations are most of this file, since each member
function has to be walked through with its early returns and its exceptions.

What may go wrong is the count.  A chunk that is counted twice completes a file that is not
complete, and a chunk that is counted but lost in a crash does the same after the restart.
`Accounted` excludes both: what is counted is in the bitmap, each chunk of the bitmap is marked or
dirty and not both, and after a restart only the marks count.

## What is here

* `Fetcher.booksKept` — the books of a lawful `Fetcher` are right in every run.
* `OneWay.Node.lawful`, `Node.lawful` — both nodes keep the rules.
* `chunk_accounting` — the accounts of both nodes.
-/

set_option autoImplicit false

namespace VeritasSync

open Exec (Within Same Wp)

/-! ## Receiving nodes

The interface.  A lawful receiving node does four things to its books, each of them one of the
operations of `VeritasSync.Sync.ChunkLedger`, and whatever else it does leaves them alone. -/

/-- A receiving node, as far as its downloads are concerned.  `β` is what it may be told to
download, and `γ` are its other calls. -/
structure Fetcher (H σ β γ : Type) where
  ledger : σ → ChunkLedger H
  /-- `BeginDownload`. -/
  begin : β → Exec σ Error Unit
  /-- The transfer that `BeginDownload` continues, and the number of chunks of the file. -/
  resumes : β → σ → Option (TransferRecord H × Nat)
  /-- `AcceptChunk`. -/
  chunk : Environment → Chunk H → Exec σ Error Unit
  other : γ → Exec σ Error Unit

namespace Fetcher

/-- What can happen to a receiving node. -/
inductive Event (H β γ : Type) where
  | begin (file : β)
  | chunk (env : Environment) (chunk : Chunk H)
  | other (call : γ)

variable {H σ β γ : Type} [ContentHash H] (M : Fetcher H σ β γ)

/-- The call that an event makes. -/
def call : Event H β γ → Exec σ Error Unit
  | .begin file => M.begin file
  | .chunk env chunk => M.chunk env chunk
  | .other call => M.other call

/-- The node after an event.  An exception goes to the caller; what has changed stays. -/
def step (s : σ) (e : Event H β γ) : σ := (M.call e s).2

/-- The storage does what the event asks of it: the call returns, unless the chunk is refused. -/
def Succeeds (s : σ) : Event H β γ → Prop
  | .begin file => (M.begin file s).1 = .ok ()
  | .chunk env chunk => (M.chunk env chunk s).1 = .ok () ∨ (M.ledger s).Refuses chunk
  | .other _ => True

/-- `Commit` is not called too early: its complaint, that a chunk is missing, is the only
`std::logic_error` there is. -/
def InTurn (s : σ) : Event H β γ → Prop
  | .other _ => True
  | e => ∀ error, (M.call e s).1 = .error error → ¬ error.IsLogic

/-- What has been accepted of a transfer becomes the whole file: the last chunk arrives, or a
download is resumed that has them all. -/
def Fills (id : TransferId) (s : σ) : Event H β γ → Prop
  | .begin file => ∃ t count, M.resumes file s = some (t, count) ∧ t.transferId = id ∧
      t.completedChunks = List.range count
  | .chunk _ chunk => (M.ledger s).Fills chunk id
  | .other _ => False

/-- `Commit` runs for a transfer: its row becomes completed. -/
def Commits (id : TransferId) (s : σ) (e : Event H β γ) : Prop :=
  (M.ledger s).state id ≠ some .completed ∧ (M.ledger (M.step s e)).state id = some .completed

instance (id : TransferId) (s : σ) (e : Event H β γ) : Decidable (M.Commits id s e) :=
  inferInstanceAs (Decidable (_ ∧ _))

/-- How often `Commit` runs for a transfer. -/
def commits (id : TransferId) : σ → List (Event H β γ) → Nat
  | _, [] => 0
  | s, e :: es => (if M.Commits id s e then 1 else 0) + commits id (M.step s e) es

/-- The accounts of a node after a run. -/
structure BooksKept (s : σ) (es : List (Event H β γ)) : Prop where
  durable : ∀ b ∈ (M.ledger (Run.run M.step s es)).batches,
    b.durableChunks = ((M.ledger (Run.run M.step s es)).marks b.transferId).length
  dirty : ∀ b ∈ (M.ledger (Run.run M.step s es)).batches, b.dirtyChunks.Nodup ∧
    ∀ i, i ∈ b.dirtyChunks ↔ i ∈ b.receiver.accepted ∧
      i ∉ (M.ledger (Run.run M.step s es)).marks b.transferId
  received : ∀ b ∈ (M.ledger (Run.run M.step s es)).batches, b.receiver.accepted.Nodup ∧
    b.receiver.receivedBytes =
      (b.receiver.accepted.map (chunkLength b.receiver.expectedSize)).sum ∧
    b.receiver.receivedBytes ≤ b.receiver.expectedSize
  inTurn : Run.Along M.step M.InTurn s es
  precisely : Run.Along M.step M.Succeeds s es →
    Run.Along M.step (fun s e => ∀ id, M.Commits id s e ↔ M.Fills id s e) s es
  once : Run.Along M.step M.Succeeds s es → ∀ id, M.commits id s es ≤ 1

/-- What `BeginDownload` has done to the books when it returns. -/
structure Begun (l : ChunkLedger H) (resumed : Option (TransferRecord H × Nat))
    (l' : ChunkLedger H) : Prop where
  accounts : l'.Accounts
  active : ∀ t count, resumed = some (t, count) → l.state t.transferId = some .active
  completed : ∀ id, l'.state id = some .completed ↔ l.state id = some .completed ∨
    ∃ t count, resumed = some (t, count) ∧ t.transferId = id ∧ t.completedChunks = List.range count
  mem : ∀ x ∈ l'.batches, (x ∈ l.batches ∧ l'.state x.transferId = l.state x.transferId) ∨
    (l'.state x.transferId = some .active ∧ ¬ x.Full)

section Begun

omit [ContentHash H]

variable {l l' : ChunkLedger H} {active : Option (TransferRecord H)} {p : Path} {hash : H}
  {id : TransferId} {count : Nat}

theorem eq_of_map_pair {t : TransferRecord H} {count' : Nat}
    (h : (active.map fun t => (t, count)) = some (t, count')) :
    active = some t ∧ count = count' := by
  obtain ⟨t', ht', hpair⟩ := Option.map_eq_some_iff.mp h
  cases hpair
  exact ⟨ht', rfl⟩

/-- There was nothing to begin. -/
theorem Begun.refl (h : l.Accounts) : Begun l none l :=
  ⟨h, nofun, fun _ => ⟨.inl, fun h => h.resolve_right nofun⟩, fun _ hx => .inl ⟨hx, rfl⟩⟩

/-- All the chunks were there: the file is committed. -/
theorem Begun.of_finish (h : l.Opened active p hash id l') (hcount : count ≠ 0)
    (hmarks : l'.marks id = List.range count) (now : Int) :
    Begun l (active.map fun t => (t, count)) (l'.finish id now) := by
  refine ⟨h.accounts.finish id now, ?_, fun id' => ?_, fun x hx => .inl ?_⟩
  · intro t count' heq
    obtain ⟨hid, -, hstate⟩ := h.found t (eq_of_map_pair heq).1
    exact hid ▸ hstate
  · obtain ⟨r, hr, -⟩ := h.row
    rw [ChunkLedger.state_finish, ← h.completed]
    split
    · rename_i hid
      rw [hid, hr]
      refine ⟨fun _ => ?_, fun _ => rfl⟩
      cases active with
      | none =>
        rw [h.created rfl] at hmarks
        exact absurd (List.range_eq_nil.mp hmarks.symm) hcount
      | some t =>
        obtain ⟨hid', hchunks, -⟩ := h.found t rfl
        exact .inr ⟨t, count, rfl, hid', hchunks.trans hmarks⟩
    · rename_i hne
      refine ⟨.inl, fun hcases => hcases.resolve_right ?_⟩
      rintro ⟨t, count', heq, hid, -⟩
      exact hne (hid.symm.trans (h.found t (eq_of_map_pair heq).1).1)
  · rw [show (l'.finish id now).batches = l'.batches from rfl, h.batches] at hx
    refine ⟨hx, ?_⟩
    rw [ChunkLedger.state_finish, if_neg (h.fresh x hx), h.state x hx]

/-- Some chunks are missing: the download is added. -/
theorem Begun.of_append (h : l.Opened active p hash id l') {b : Batch H} (hb : Accounted b l')
    (hid : b.transferId = id) (hcount : b.chunkCount = count) (hclean : b.dirtyChunks = [])
    (hmarks : l'.marks id ≠ List.range count) :
    Begun l (active.map fun t => (t, count)) (l'.withBatches (l'.batches ++ [b])) := by
  refine ⟨h.accounts.begin hb ?_, ?_, fun id' => ?_, fun x hx => ?_⟩
  · intro x hx
    rw [hid]
    exact h.fresh x (h.batches ▸ hx)
  · intro t count' heq
    obtain ⟨hid, -, hstate⟩ := h.found t (eq_of_map_pair heq).1
    exact hid ▸ hstate
  · rw [ChunkLedger.state_withBatches, h.completed]
    refine ⟨.inl, fun hcases => hcases.resolve_right ?_⟩
    rintro ⟨t, count', heq, -, hchunks⟩
    obtain ⟨hactive, rfl⟩ := eq_of_map_pair heq
    exact hmarks ((h.found t hactive).2.1.symm.trans hchunks)
  · rcases List.mem_append.mp hx with hx | hx
    · rw [h.batches] at hx
      exact .inl ⟨hx, h.state x hx⟩
    · obtain rfl := List.mem_singleton.mp hx
      obtain ⟨r, hr, -, -, hactive⟩ := h.row
      refine .inr ⟨?_, fun hfull => hmarks ?_⟩
      · rw [ChunkLedger.state_withBatches, hid, ChunkLedger.state, hr, Option.map_some, hactive]
      · rw [← hid, ← hcount]
        exact hb.marks_eq_range h.accounts.kept hclean hfull

end Begun

/-- The transfer that a download of a file continues, and the number of chunks of the file, unless
the file is empty or on its way already. -/
def resumable (db : Database H) (peer : DeviceId) (batches : List (Batch H)) (p : Path)
    (hash : Except Error H) (size : Nat) : Option (TransferRecord H × Nat) :=
  match hash with
  | .error _ => none
  | .ok hash =>
    if size = 0 ∨ batches.any fun b => b.path = p ∧ b.hash = hash then none
    else
      match db.findActiveDownloadTransfer peer p hash with
      | .error _ => none
      | .ok active => active.map fun t => (t, chunkCount size)

/-- What a call that neither begins nor finishes a download may do to the books. -/
structure Rests (l l' : ChunkLedger H) : Prop where
  accounts : l'.Accounts
  state : ∀ id, l'.state id = l.state id
  mem : ∀ x ∈ l'.batches, ∃ y ∈ l.batches, x = y ∨ x = y.persisted

/-- If the books were right, the call did no more than that. -/
def Resting (ledger : σ → ChunkLedger H) (s s' : σ) : Prop :=
  (ledger s).Accounts → Rests (ledger s) (ledger s')

omit [ContentHash H] in
theorem Resting.of_eq {ledger : σ → ChunkLedger H} {s s' : σ} (h : ledger s' = ledger s) :
    Resting ledger s s' := fun haccounts => by
  rw [h]
  exact ⟨haccounts, fun _ => rfl, fun x hx => ⟨x, hx, .inl rfl⟩⟩

instance (ledger : σ → ChunkLedger H) : IsPreorder σ (Resting ledger) where
  refl _ := .of_eq rfl
  trans s₁ s₂ s₃ h h' haccounts := by
    have h₁ := h haccounts
    have h₂ := h' h₁.accounts
    refine ⟨h₂.accounts, fun id => (h₂.state id).trans (h₁.state id), fun x hx => ?_⟩
    obtain ⟨y, hy, hxy⟩ := h₂.mem x hx
    obtain ⟨z, hz, hyz⟩ := h₁.mem y hy
    refine ⟨z, hz, ?_⟩
    rcases hxy with rfl | rfl
    · exact hyz
    · rcases hyz with rfl | rfl
      · exact .inr rfl
      · exact .inr rfl

omit [ContentHash H] in
/-- The dirty chunks of a batch are marked. -/
theorem Rests.persist {l : ChunkLedger H} {b : Batch H} {new : List (Batch H)} (h : l.Accounts)
    (hb : b ∈ l.batches) (hnew : Replaces b b.persisted l.batches new) (now : Int) :
    Rests l ((l.mark b.transferId b.dirtyChunks now).withBatches new) := by
  refine ⟨h.persist hb now hnew, fun id => ?_, fun x hx => ?_⟩
  · rw [ChunkLedger.state_withBatches, ChunkLedger.state_mark]
  · rcases hnew.mem x hx with rfl | hold
    · exact ⟨b, hb, .inr rfl⟩
    · exact ⟨x, hold.1, .inl rfl⟩

omit [ContentHash H] in
/-- The node forgets its downloads. -/
theorem Rests.clear {l : ChunkLedger H} (h : l.Accounts) : Rests l (l.withBatches []) :=
  ⟨h.clear, fun _ => rfl, nofun⟩

/-- The rules the member functions of a receiving node keep. -/
structure Lawful : Prop where
  begin : ∀ file s, (M.ledger s).Accounts →
    Wp (M.begin file) (fun _ s' => Begun (M.ledger s) (M.resumes file s) (M.ledger s'))
      (fun e s' => (M.ledger s').Accounts ∧ ¬ e.IsLogic) s
  chunk : ∀ env chunk s, (M.ledger s).Accounts →
    Wp (M.chunk env chunk) (fun _ s' => (M.ledger s).Served chunk (M.ledger s'))
      (fun e s' => (M.ledger s).Failed chunk e (M.ledger s')) s
  other : ∀ call, Within (Resting M.ledger) (M.other call)

variable {M}

namespace Lawful

variable (hM : M.Lawful) {s : σ}

include hM

theorem accounts_step (e : Event H β γ) (h : (M.ledger s).Accounts) :
    (M.ledger (M.step s e)).Accounts := by
  cases e with
  | begin file =>
    exact Exec.of_wp (I := fun s' => (M.ledger s').Accounts)
      (Exec.wp_mono (hM.begin file s h) (fun _ _ h' => h'.accounts) fun _ _ h' => h'.1)
  | chunk env chunk =>
    refine Exec.of_wp (I := fun s' => (M.ledger s').Accounts)
      (Exec.wp_mono (hM.chunk env chunk s h) (fun _ s' h' => ?_) fun _ _ h' => h'.accounts)
    obtain ⟨b, -, -, ⟨-, hsame⟩ | ⟨-, htakes⟩⟩ := h'
    · exact hsame ▸ h
    · exact htakes.accounts
  | other call => exact (hM.other call s h).accounts

theorem inTurn (e : Event H β γ) (h : (M.ledger s).Accounts) : M.InTurn s e := by
  cases e with
  | begin file =>
    intro error herror
    have hwp := hM.begin file s h
    rw [Wp, show M.begin file s = (.error error, (M.begin file s).2) from Prod.ext herror rfl]
      at hwp
    exact hwp.2
  | chunk env chunk =>
    intro error herror
    have hwp := hM.chunk env chunk s h
    rw [Wp, show M.chunk env chunk s = (.error error, (M.chunk env chunk s).2) from
      Prod.ext herror rfl] at hwp
    exact hwp.notLogic
  | other call => trivial

/-- A step that succeeds leaves every batch open, and finishes exactly the transfers that are
filled. -/
theorem step_open (e : Event H β γ) (h : (M.ledger s).Accounts) (hopen : (M.ledger s).Open)
    (he : M.Succeeds s e) :
    (M.ledger (M.step s e)).Open ∧ (∀ id, M.Commits id s e ↔ M.Fills id s e) ∧
      ∀ id, (M.ledger s).state id = some .completed →
        (M.ledger (M.step s e)).state id = some .completed := by
  cases e with
  | begin file =>
    have hbegun := Exec.of_wp_ok (hM.begin file s h) he
    refine ⟨fun x hx => ?_, fun id => ⟨?_, ?_⟩, fun id hid => (hbegun.completed id).mpr (.inl hid)⟩
    · rcases hbegun.mem x hx with ⟨hold, hstate⟩ | hnew
      · exact ⟨hstate.trans (hopen x hold).1, (hopen x hold).2⟩
      · exact hnew
    · rintro ⟨hbefore, hafter⟩
      exact ((hbegun.completed id).mp hafter).resolve_left hbefore
    · intro hfills
      refine ⟨?_, (hbegun.completed id).mpr (.inr hfills)⟩
      obtain ⟨t, count, hresumed, rfl, -⟩ := hfills
      rw [hbegun.active t count hresumed]
      nofun
  | chunk env chunk =>
    rcases he with hok | hrefused
    · have hserved := Exec.of_wp_ok (hM.chunk env chunk s h) hok
      refine ⟨hserved.open hopen, hserved.completed_iff hopen, fun id hid => ?_⟩
      obtain ⟨b, -, -, ⟨-, hsame⟩ | ⟨-, htakes⟩⟩ := hserved
      · exact hsame ▸ hid
      · show (M.ledger (M.chunk env chunk s).2).state id = _
        rw [htakes.state, hid, ite_self]
    -- a chunk that the receiver refuses raises before the books are touched
    · have hsame : M.ledger (M.chunk env chunk s).2 = M.ledger s := by
        have hwp := hM.chunk env chunk s h
        rw [Wp] at hwp
        rcases hrun : M.chunk env chunk s with ⟨e | a, s'⟩
        · rw [hrun] at hwp
          exact hwp.refused hrefused
        · rw [hrun] at hwp
          obtain ⟨b, howner, hcheck, -⟩ := hwp
          exact absurd hcheck (hrefused b howner)
      refine ⟨show (M.ledger (M.chunk env chunk s).2).Open from hsame ▸ hopen, fun id => ⟨?_, ?_⟩,
        fun id hid => show (M.ledger (M.chunk env chunk s).2).state id = _ from hsame ▸ hid⟩
      · rintro ⟨hbefore, hafter⟩
        exact absurd (hsame ▸ hafter) hbefore
      · rintro ⟨b, howner, -, hcheck, -⟩
        exact absurd hcheck (hrefused b howner)
  | other call =>
    have hrests := hM.other call s h
    refine ⟨fun x hx => ?_, fun id => ⟨?_, False.elim⟩, fun id hid => (hrests.state id).trans hid⟩
    · obtain ⟨y, hy, hxy⟩ := hrests.mem x hx
      refine ⟨(hrests.state _).trans ?_, fun hfull => (hopen y hy).2 ?_⟩
      · rcases hxy with rfl | rfl
        · exact (hopen x hy).1
        · exact (hopen y hy).1
      · rcases hxy with rfl | rfl
        · exact hfull
        · exact hfull
    · rintro ⟨hbefore, hafter⟩
      exact absurd ((hrests.state id).symm.trans hafter) hbefore

/-- What is completed is not committed again. -/
theorem commits_eq_zero {id : TransferId} (es : List (Event H β γ)) (h : (M.ledger s).Accounts)
    (hopen : (M.ledger s).Open) (hes : Run.Along M.step M.Succeeds s es)
    (hid : (M.ledger s).state id = some .completed) : M.commits id s es = 0 := by
  induction es generalizing s with
  | nil => rfl
  | cons e es ih =>
    obtain ⟨hopen', -, hlasts⟩ := hM.step_open e h hopen hes.1
    rw [commits, if_neg fun hcommits => hcommits.1 hid, Nat.zero_add]
    exact ih (hM.accounts_step e h) hopen' hes.2 (hlasts id hid)

theorem commits_le_one {id : TransferId} (es : List (Event H β γ)) (h : (M.ledger s).Accounts)
    (hopen : (M.ledger s).Open) (hes : Run.Along M.step M.Succeeds s es) :
    M.commits id s es ≤ 1 := by
  induction es generalizing s with
  | nil => exact Nat.zero_le 1
  | cons e es ih =>
    obtain ⟨hopen', -, -⟩ := hM.step_open e h hopen hes.1
    rw [commits]
    split
    · rename_i hcommits
      rw [hM.commits_eq_zero es (hM.accounts_step e h) hopen' hes.2 hcommits.2]
    · rw [Nat.zero_add]
      exact ih (hM.accounts_step e h) hopen' hes.2

/-- **The books of a lawful node are right in every run.**  Stated once for the interface, and used
for both nodes. -/
theorem booksKept (hkept : (M.ledger s).Kept) (hnone : (M.ledger s).batches = [])
    (es : List (Event H β γ)) : M.BooksKept s es := by
  have haccounts : (M.ledger s).Accounts := by
    refine ⟨hkept, ?_, ?_⟩
    · rw [hnone]
      exact List.nodup_nil
    · rw [hnone]
      nofun
  have hopen : (M.ledger s).Open := by
    rw [ChunkLedger.Open, hnone]
    nofun
  have hfinal : (M.ledger (Run.run M.step s es)).Accounts :=
    Run.run_invariant_all (I := fun s => (M.ledger s).Accounts)
      (fun _ e h => hM.accounts_step e h) es haccounts
  refine ⟨fun b hb => (hfinal.each b hb).durable, fun b hb => ?_, fun b hb => ?_, ?_, fun hes => ?_,
    fun hes id => hM.commits_le_one es haccounts hopen hes⟩
  · exact ⟨(hfinal.each b hb).dirty_nodup, (hfinal.each b hb).mem_dirty⟩
  · have haccounted := hfinal.each b hb
    exact ⟨haccounted.accepted_nodup, haccounted.received, haccounted.receivedBytes_le⟩
  · exact Run.along_of_invariant (P := fun _ _ => True) (I := fun s => (M.ledger s).Accounts)
      (fun _ e _ h => ⟨hM.inTurn e h, hM.accounts_step e h⟩) es s
      (Run.along_of_forall (P := fun _ => True) fun _ _ => trivial) haccounts
  · refine Run.along_of_invariant (I := fun s => (M.ledger s).Accounts ∧ (M.ledger s).Open)
      (fun s e he h => ?_) es s hes ⟨haccounts, hopen⟩
    obtain ⟨hopen', hiff, -⟩ := hM.step_open e h.1 h.2 he
    exact ⟨hiff, hM.accounts_step e h.1, hopen'⟩

end Lawful

end Fetcher

/-! ## The operations on the table -/

section Table

variable {H : Type}

theorem mark_of_eq_ok {db db' : Database H} {id : TransferId} {indices : List Nat} {now : Int}
    (h : db.markTransferChunksCompleted id indices now = .ok db') (bs : List (Batch H)) :
    (⟨db'.transfers, bs⟩ : ChunkLedger H) =
      (⟨db.transfers, bs⟩ : ChunkLedger H).mark id indices now := by
  rw [Database.markTransferChunksCompleted] at h
  split at h
  · cases h
  · rw [Database.updateTransfer_eq_ok h]
    rfl

theorem finish_of_eq_ok {db db' : Database H} {id : TransferId} {now : Int}
    (h : db.updateTransferState id .completed now = .ok db') (bs : List (Batch H)) :
    (⟨db'.transfers, bs⟩ : ChunkLedger H) = (⟨db.transfers, bs⟩ : ChunkLedger H).finish id now := by
  rw [Database.updateTransferState] at h
  split at h
  · cases h
  · rw [Database.updateTransfer_eq_ok h]
    rfl

end Table

/-! ## The one-way node -/

namespace OneWay

namespace Node

variable {H : Type} [ContentHash H]

/-- The books of a one-way node. -/
def chunkLedger (n : Node H) : ChunkLedger H := ⟨n.db.transfers, n.downloads.map Download.batch⟩

theorem owner_ledger (n : Node H) (chunk : Chunk H) :
    n.chunkLedger.owner chunk = (n.downloads.find? (ownsChunk chunk)).map Download.batch :=
  List.find?_map

variable {n : Node H} {receiver : DownloadReceiver H}

omit [ContentHash H] in
theorem ledger_upsertRecord (p : Path) (kind : FileKind) (size : Nat) (hash : Option H)
    (n : Node H) : Wp (upsertRecord p kind size hash)
      (fun _ n' => n'.chunkLedger = n.chunkLedger ∧ n'.downloads = n.downloads)
      (fun e n' => n'.chunkLedger = n.chunkLedger ∧ ¬ e.IsLogic) n := by
  rw [upsertRecord, Exec.wp_bind, wp_newUuidV4, Exec.wp_bind, Exec.wp_state]
  refine Exec.wp_atomic (fun e he => ⟨rfl, ?_⟩) fun _ n' h => ?_
  · exact notLogic_map (Database.notLogic_upsertFileRecord _ _) e he
  · obtain ⟨db, hdb, h⟩ := ok_of_map h
    cases h
    obtain ⟨-, rfl⟩ := Database.upsertFileRecord_eq_ok hdb
    exact ⟨rfl, rfl⟩

omit [ContentHash H] in
/-- Marking chunks. -/
theorem ledger_persist (indices : List Nat) (now : Int) (n : Node H) :
    Wp (onStore (receiver.persistAcceptedChunks indices now))
      (fun _ n' => n'.chunkLedger = n.chunkLedger.mark receiver.transferId indices now ∧
        n'.downloads = n.downloads)
      (fun e n' => n'.chunkLedger = n.chunkLedger ∧ ¬ e.IsLogic) n := by
  rw [wp_onStore, DownloadReceiver.persistAcceptedChunks, Exec.wp_bind]
  refine Exec.wp_check (fun e he => ⟨rfl, ?_⟩) fun _ _ => ?_
  · exact Folder.notLogic_flushPartial _ _ e he
  · refine Exec.wp_atomic (fun e he => ⟨rfl, ?_⟩) fun _ s h => ?_
    · exact notLogic_map (Database.notLogic_markTransferChunksCompleted _ _ _ _) e he
    · obtain ⟨db, hdb, h⟩ := ok_of_map h
      cases h
      exact ⟨mark_of_eq_ok hdb _, rfl⟩

/-- `Commit`, when no chunk is missing. -/
theorem ledger_commit (now : Int) (n : Node H)
    (hmarks : n.chunkLedger.marks receiver.transferId = List.range receiver.chunkCount) :
    Wp (onStore (receiver.commit now))
      (fun _ n' => n'.chunkLedger = n.chunkLedger.finish receiver.transferId now ∧
        n'.downloads = n.downloads)
      (fun e n' => n'.chunkLedger = n.chunkLedger ∧ ¬ e.IsLogic) n := by
  rw [wp_onStore, DownloadReceiver.commit, Exec.wp_bind]
  refine Exec.wp_check_ok (a := ()) (if_pos hmarks) ?_
  rw [Exec.wp_bind]
  refine Exec.wp_atomic (fun e he => ⟨rfl, ?_⟩) fun _ s h => ?_
  · exact notLogic_map (Folder.notLogic_commitPartial _ _ _ _) e he
  · obtain ⟨folder, -, h⟩ := ok_of_map h
    cases h
    refine Exec.wp_atomic (fun e he => ⟨rfl, ?_⟩) fun _ s h => ?_
    · exact notLogic_map (Database.notLogic_updateTransferState _ _ _ _) e he
    · obtain ⟨db, hdb, h⟩ := ok_of_map h
      cases h
      exact ⟨finish_of_eq_ok hdb _, rfl⟩

/-- `AcceptChunk` of a receiver. -/
theorem ledger_receive (index offset : Nat) (bytes : Bytes) (hash : H) (n : Node H) :
    Wp (onStore (receiver.acceptChunk index offset bytes hash))
      (fun r n' => (n'.chunkLedger = n.chunkLedger ∧ n'.downloads = n.downloads) ∧
        receiver.checkChunk index offset bytes hash = .ok () ∧
        ((index ∈ receiver.accepted ∧ r = (false, receiver)) ∨
          (index ∉ receiver.accepted ∧ r = (true, receiver.accept index bytes.length))))
      (fun e n' => n'.chunkLedger = n.chunkLedger ∧ ¬ e.IsLogic) n := by
  rw [wp_onStore, DownloadReceiver.acceptChunk, Exec.wp_bind]
  refine Exec.wp_check (fun e he => ⟨rfl, ?_⟩) fun _ hcheck => ?_
  · exact notLogic_ite (notLogic_error id) (notLogic_ok _) e he
  · refine Exec.wp_ite (fun hmem => ⟨⟨rfl, rfl⟩, hcheck, .inl ⟨hmem, rfl⟩⟩) fun hfresh => ?_
    rw [Exec.wp_bind]
    refine Exec.wp_atomic (fun e he => ⟨rfl, ?_⟩) fun _ s hs => ?_
    · exact notLogic_map (Folder.notLogic_writePartialChunk _ _ _ _) e he
    · obtain ⟨folder, -, hs⟩ := ok_of_map hs
      cases hs
      exact ⟨⟨rfl, rfl⟩, hcheck, .inr ⟨hfresh, rfl⟩⟩

/-! ### `AcceptChunk` -/

section Accept

variable {chunk : Chunk H} {d : Download H} {index : Nat} {l : ChunkLedger H} {b : Batch H}

omit [ContentHash H] in
theorem batch_accept (hlength : chunk.bytes.length = chunkLength d.receiver.expectedSize index) :
    (d.accept (d.receiver.accept index chunk.bytes.length) index chunk.bytes.length).batch =
      d.batch.take index := by
  rw [hlength]
  rfl

theorem ledger_settleDownload (h : l.Settling b index d.batch n.chunkLedger)
    (hfind : n.downloads.find? (ownsChunk chunk) = some d) :
    Wp (settleDownload chunk d) (fun _ n' => l.Takes b index n'.chunkLedger)
      (fun e n' => n'.chunkLedger.Accounts ∧ ¬ e.IsLogic) n := by
  refine Exec.wp_when (fun hcount => ?_) fun hcount => h.takes hcount
  rw [Exec.wp_bind, commitDownload, Exec.wp_bind, Exec.wp_state, Exec.wp_bind]
  refine Exec.wp_mono (ledger_commit _ n (h.marks hcount)) (fun _ n₁ h₁ => ?_)
    fun e n₁ h₁ => ⟨h₁.1 ▸ h.accounts, h₁.2⟩
  obtain ⟨hledger₁, hsame₁⟩ := h₁
  refine Exec.wp_mono (ledger_upsertRecord _ _ _ _ n₁) (fun _ n₂ h₂ => ?_) fun e n₂ h₂ =>
    ⟨h₂.1 ▸ hledger₁ ▸ h.accounts.finish _ _, h₂.2⟩
  obtain ⟨hledger₂, hsame₂⟩ := h₂
  rw [Exec.wp_update]
  have howners : ((n.downloads.map Download.batch).map Batch.transferId).Nodup := h.accounts.owners
  have hnew := h.takes_finish n.nowMs
    ((n.downloads.eraseP (ownsChunk chunk)).map Download.batch) hcount (List.eraseP_sublist.map _)
    fun x hx => (mem_eraseP_of_find _ hfind howners hx).2
  have hledger : chunkLedger { n₂ with downloads := n₂.downloads.eraseP (ownsChunk chunk) } =
      (n.chunkLedger.finish d.receiver.transferId n.nowMs).withBatches
        ((n.downloads.eraseP (ownsChunk chunk)).map Download.batch) := by
    rw [← hledger₁, ← hledger₂, ← hsame₁, ← hsame₂]
    rfl
  rw [hledger]
  exact hnew

/-- The dirty chunks are marked, and the file is committed if it is complete. -/
theorem ledger_persistAccepted (h : l.Accounts) (hb : b ∈ l.batches) (hlt : index < b.chunkCount)
    (hfresh : index ∉ b.receiver.accepted) (hbatch : d.batch = b.take index)
    (hfind : n.downloads.find? (ownsChunk chunk) = some d)
    (hnew : Replaces b (b.take index) l.batches n.chunkLedger.batches)
    (hledger : n.chunkLedger = l.withBatches n.chunkLedger.batches) (now : Int) :
    Wp (do
        onStore (d.receiver.persistAcceptedChunks d.dirtyChunks now)
        Exec.update fun n =>
          { n with
            downloads := VeritasSync.Node.updateFirst (ownsChunk chunk) Download.persisted
              n.downloads }
        settleDownload chunk d.persisted)
      (fun _ n' => l.Takes b index n'.chunkLedger)
      (fun e n' => n'.chunkLedger.Accounts ∧ ¬ e.IsLogic) n := by
  have haccounts : n.chunkLedger.Accounts := hledger ▸ h.accept hb hlt hfresh hnew
  have hmem : d.batch ∈ n.chunkLedger.batches :=
    List.mem_map_of_mem (List.mem_of_find?_eq_some hfind)
  have howns : ownsChunk chunk d = true := List.find?_some hfind
  have howners : ((n.downloads.map Download.batch).map Batch.transferId).Nodup :=
    haccounts.owners
  rw [Exec.wp_bind]
  refine Exec.wp_mono (ledger_persist _ _ n) (fun _ n₁ h₁ => ?_) fun e n₁ h₁ =>
    ⟨h₁.1 ▸ haccounts, h₁.2⟩
  obtain ⟨hledger₁, hsame₁⟩ := h₁
  rw [Exec.wp_bind, Exec.wp_update]
  have hid : d.receiver.transferId = b.transferId := by
    rw [show d.receiver = (b.take index).receiver from congrArg Batch.receiver hbatch]
    exact (h.each b hb).receiver_id
  have hdirty : d.dirtyChunks = (b.take index).dirtyChunks := congrArg Batch.dirtyChunks hbatch
  have hpersisted : d.persisted.batch = (b.take index).persisted := by
    rw [← hbatch]
    rfl
  have hreplaces := replaces_updateFirst Download.batch Download.persisted hfind
    howners fun _ => rfl
  rw [hbatch, hpersisted] at hreplaces
  rw [hbatch] at hmem
  have hsettling := h.settling_persisted now hb hlt hfresh hnew hreplaces hmem
  refine ledger_settleDownload (b := b) (l := l) ?_ ?_
  · rw [hpersisted]
    have hnext : chunkLedger { n₁ with
          downloads := VeritasSync.Node.updateFirst (ownsChunk chunk) Download.persisted
            n₁.downloads } =
        ((l.withBatches n.chunkLedger.batches).mark b.transferId
          (b.take index).dirtyChunks now).withBatches
          ((VeritasSync.Node.updateFirst (ownsChunk chunk) Download.persisted n.downloads).map
            Download.batch) := by
      rw [← hledger, ← hid, ← hdirty, ← hledger₁, ← hsame₁]
      rfl
    rw [hnext]
    exact hsettling
  · show (VeritasSync.Node.updateFirst (ownsChunk chunk) Download.persisted n₁.downloads).find?
      (ownsChunk chunk) = _
    rw [hsame₁]
    exact VeritasSync.Node.find?_updateFirst hfind howns

/-- **`AcceptChunk`** on the books. -/
theorem ledger_acceptInto (h : n.chunkLedger.Accounts)
    (hfind : n.downloads.find? (ownsChunk chunk) = some d) :
    Wp (acceptInto chunk d) (fun _ n' => n.chunkLedger.Served chunk n'.chunkLedger)
      (fun e n' => n.chunkLedger.Failed chunk e n'.chunkLedger) n := by
  have howner : n.chunkLedger.owner chunk = some d.batch := by rw [owner_ledger, hfind]; rfl
  have hb : d.batch ∈ n.chunkLedger.batches := ChunkLedger.owner_mem howner
  rw [acceptInto]
  simp only
  rw [Exec.wp_bind]
  refine Exec.wp_mono (ledger_receive _ _ _ _ n) (fun r n₁ h₁ => ?_) fun e n₁ h₁ =>
    ⟨h₁.1 ▸ h, h₁.2, fun _ => h₁.1⟩
  obtain ⟨⟨hledger₁, hsame₁⟩, hcheck, hcase⟩ := h₁
  have hvalid : d.batch.check chunk = .ok () := hcheck
  -- a chunk that was there already changes no book; a new one is taken, written or kept for later
  rcases hcase with ⟨hmem, rfl⟩ | ⟨hfresh, rfl⟩
  · exact ⟨d.batch, howner, hvalid, .inl ⟨hmem, hledger₁⟩⟩
  obtain ⟨hlt, hlength⟩ := Batch.check_eq_ok hvalid
  rw [(h.each _ hb).receiver_count] at hlt
  refine Exec.wp_mono (Q := fun _ n' => n.chunkLedger.Takes d.batch
      (chunk.offset / logicalChunkSize) n'.chunkLedger)
    (E := fun e n' => n'.chunkLedger.Accounts ∧ ¬ e.IsLogic) ?_
    (fun _ _ h' => ⟨d.batch, howner, hvalid, .inr ⟨hfresh, h'⟩⟩)
    fun e _ h' => ChunkLedger.failed_of_valid howner hvalid h'.1 h'.2
  simp only [Bool.not_true, Bool.false_eq_true, if_false]
  rw [Exec.wp_bind, Exec.wp_update]
  have hbatch := batch_accept (d := d) hlength
  have howns : ownsChunk chunk d = true := List.find?_some hfind
  have hfind₁ : n₁.downloads.find? (ownsChunk chunk) = some d := hsame₁ ▸ hfind
  have howners₁ : ((n₁.downloads.map Download.batch).map Batch.transferId).Nodup :=
    hsame₁ ▸ h.owners
  have hnew := replaces_updateFirst Download.batch
    (fun d' => d'.accept (d.receiver.accept (chunk.offset / logicalChunkSize) chunk.bytes.length)
      (chunk.offset / logicalChunkSize) chunk.bytes.length) hfind₁ howners₁ fun _ => rfl
  rw [hbatch, hsame₁] at hnew
  have hfind₂ := VeritasSync.Node.find?_updateFirst
    (f := fun d' : Download H =>
      d'.accept (d.receiver.accept (chunk.offset / logicalChunkSize) chunk.bytes.length)
        (chunk.offset / logicalChunkSize) chunk.bytes.length)
    hfind₁ howns
  rw [hsame₁] at hfind₂ ⊢
  refine Exec.wp_ite (fun _ => ?_) fun hcount => ?_
  · rw [Exec.wp_bind, Exec.wp_state]
    refine ledger_persistAccepted h hb hlt hfresh hbatch ?_ ?_ ?_ _
    · exact hfind₂
    · exact hnew
    · rw [← hledger₁]
      rfl
  · rw [not_or] at hcount
    refine ledger_settleDownload ?_ hfind₂
    rw [hbatch]
    show n.chunkLedger.Settling _ _ _ (n₁.chunkLedger.withBatches _)
    rw [hledger₁]
    exact h.settling_dirty hb hlt hfresh hnew (hbatch ▸ hcount.2)

theorem ledger_acceptChunk (chunk : Chunk H) (n : Node H) (h : n.chunkLedger.Accounts) :
    Wp (acceptChunk chunk) (fun _ n' => n.chunkLedger.Served chunk n'.chunkLedger)
      (fun e n' => n.chunkLedger.Failed chunk e n'.chunkLedger) n := by
  rw [acceptChunk, Exec.wp_bind, Exec.wp_state]
  split
  · exact ⟨h, id, fun _ => rfl⟩
  · rename_i d hfind
    exact ledger_acceptInto h hfind

end Accept

/-! ### `BeginDownload` -/

section Begin

variable {p : Path} {hash : H}

theorem lacks_of_not_any (h : ¬ n.downloads.any fun download =>
    download.entry.relativePath = p ∧ download.hash = hash) : n.chunkLedger.Lacks p hash := by
  intro b hb hgoal
  obtain ⟨d, hd, rfl⟩ := List.mem_map.mp hb
  exact h (List.any_eq_true.mpr ⟨d, hd, decide_eq_true hgoal⟩)

omit [ContentHash H] in
theorem ledger_append (n : Node H) (d : Download H) :
    chunkLedger { n with downloads := n.downloads ++ [d] } =
      n.chunkLedger.withBatches (n.chunkLedger.batches ++ [d.batch]) := by
  rw [chunkLedger, List.map_append]
  rfl

/-- The transfer of a download. -/
theorem ledger_openTransfer (h : n.chunkLedger.Accounts) (hlacks : n.chunkLedger.Lacks p hash) :
    Wp (openTransfer p hash)
      (fun id n' => ∃ active,
        n.db.findActiveDownloadTransfer n.config.peerDeviceId p hash = .ok active ∧
          n.chunkLedger.Opened active p hash id n'.chunkLedger)
      (fun e n' => n'.chunkLedger.Accounts ∧ ¬ e.IsLogic) n := by
  rw [openTransfer, Exec.wp_bind, Exec.wp_state, Exec.wp_bind]
  refine Exec.wp_check (fun e he => ⟨h, Database.notLogic_findActiveDownloadTransfer _ _ _ _ e he⟩)
    fun active hactive => ?_
  cases active with
  | some t =>
    obtain ⟨ht, hpath, hhash, hstate⟩ := findActiveDownloadTransfer_eq_ok hactive
    exact ⟨some t, hactive, h.opened_found hlacks ht hpath hhash hstate⟩
  | none =>
    rw [Exec.wp_bind]
    show Wp _ _ _ { n with transferIdsUsed := n.transferIdsUsed + 1 }
    rw [Exec.wp_bind]
    refine Exec.wp_atomic (fun e he => ⟨h, notLogic_map (Folder.notLogic_discardPartial _ _) e he⟩)
      fun _ n₁ hn₁ => ?_
    obtain ⟨folder, -, hn₁⟩ := ok_of_map hn₁
    cases hn₁
    rw [Exec.wp_bind]
    refine Exec.wp_atomic
      (fun e he => ⟨h, notLogic_map (Database.notLogic_createTransfer _ _) e he⟩) fun _ n₂ hn₂ => ?_
    obtain ⟨db, hdb, hn₂⟩ := ok_of_map hn₂
    cases hn₂
    obtain ⟨hnew, rfl⟩ := Database.createTransfer_eq_ok hdb
    exact ⟨none, hactive, h.opened_created hnew rfl rfl⟩

theorem ledger_beginTransfer {entry : ManifestEntry H} (h : n.chunkLedger.Accounts)
    (hlacks : n.chunkLedger.Lacks entry.relativePath hash) :
    Wp (beginTransfer entry hash)
      (fun _ n' => ∃ active,
        n.db.findActiveDownloadTransfer n.config.peerDeviceId entry.relativePath hash =
          .ok active ∧
        Fetcher.Begun n.chunkLedger (active.map fun t => (t, chunkCount entry.size)) n'.chunkLedger)
      (fun e n' => n'.chunkLedger.Accounts ∧ ¬ e.IsLogic) n := by
  rw [beginTransfer, Exec.wp_bind]
  refine Exec.wp_mono (ledger_openTransfer h hlacks) (fun id n₁ h₁ => ?_) fun _ _ he => he
  obtain ⟨active, hactive, hopened⟩ := h₁
  have hkept := hopened.accounts.kept.pairwise_marks id
  rw [Exec.wp_bind]
  refine Exec.wp_check (fun e he => ⟨hopened.accounts, DownloadReceiver.notLogic_create _ _ _ _ _ _
    e he⟩) fun receiver hreceiver => ?_
  obtain ⟨hlt, rfl⟩ := DownloadReceiver.create_eq_ok hreceiver
  rw [Exec.wp_bind]
  refine Exec.wp_check (fun e he => ⟨hopened.accounts, DownloadReceiver.notLogic_resumeRequest _ _
    e he⟩) fun request hrequest => ?_
  obtain ⟨hcount, hnil⟩ := DownloadReceiver.resumeRequest_eq_nil hrequest hkept
  refine Exec.wp_ite (fun hnone => ?_) fun hsome => ?_
  · have hmarks := hnil.mp hnone
    rw [Exec.wp_bind, Exec.wp_state, Exec.wp_bind]
    refine Exec.wp_mono (ledger_commit _ n₁ hmarks) (fun _ n₂ h₂ => ?_) fun e n₂ h₂ =>
      ⟨h₂.1 ▸ hopened.accounts, h₂.2⟩
    refine Exec.wp_mono (ledger_upsertRecord _ _ _ _ n₂) (fun _ n₃ h₃ => ?_) fun e n₃ h₃ =>
      ⟨h₃.1 ▸ h₂.1 ▸ hopened.accounts.finish _ _, h₃.2⟩
    refine ⟨active, hactive, ?_⟩
    rw [h₃.1, h₂.1]
    exact .of_finish hopened hcount hmarks _
  · have hbegun := Fetcher.Begun.of_append hopened (hopened.accounted hlt) rfl rfl rfl
      fun hmarks => hsome (hnil.mpr hmarks)
    rw [Exec.wp_bind, Exec.wp_update, Exec.wp_bind]
    refine Exec.wp_check (fun e he => ⟨?_, ?_⟩) fun _ _ => ⟨active, hactive, ?_⟩
    · rw [ledger_append]
      exact hbegun.accounts
    · have hencode : NotLogic (encodeFileRequest request) :=
        notLogic_ite (notLogic_error (by rintro ⟨⟩)) (notLogic_ok _)
      exact hencode e he
    · show Fetcher.Begun _ _ (chunkLedger { n₁ with downloads := n₁.downloads ++ [_] })
      rw [ledger_append]
      exact hbegun

/-- **`BeginDownload`** on the books. -/
theorem ledger_beginDownload {entry : ManifestEntry H} (hentry : NotLogic entry.decodeHash)
    (h : n.chunkLedger.Accounts) :
    Wp (beginDownload entry)
      (fun _ n' => Fetcher.Begun n.chunkLedger
        (Fetcher.resumable n.db n.config.peerDeviceId n.chunkLedger.batches entry.relativePath
          entry.decodeHash entry.size) n'.chunkLedger)
      (fun e n' => n'.chunkLedger.Accounts ∧ ¬ e.IsLogic) n := by
  refine Exec.wp_ite (fun hsize => ?_) fun hsize => ?_
  · rw [Exec.wp_bind]
    refine Exec.wp_atomic
      (fun e he => ⟨h, notLogic_map (Folder.notLogic_writeAtomically _ _ _) e he⟩)
      fun _ n₁ hn₁ => ?_
    obtain ⟨folder, -, hn₁⟩ := ok_of_map hn₁
    cases hn₁
    rw [Exec.wp_bind]
    refine Exec.wp_check (fun e he => ⟨h, hentry e he⟩) fun hash hhash => ?_
    refine Exec.wp_mono (ledger_upsertRecord _ _ _ _ _) (fun _ n₂ h₂ => ?_) fun e n₂ h₂ =>
      ⟨h₂.1 ▸ h, h₂.2⟩
    rw [h₂.1, hhash, Fetcher.resumable]
    simp only [hsize, true_or, if_true]
    exact .refl h
  · rw [Exec.wp_bind]
    refine Exec.wp_check (fun e he => ⟨h, hentry e he⟩) fun hash hhash => ?_
    rw [Exec.wp_bind, Exec.wp_state, hhash, Fetcher.resumable]
    have hany : (n.chunkLedger.batches.any fun b => b.path = entry.relativePath ∧ b.hash = hash) =
        n.downloads.any fun download =>
          download.entry.relativePath = entry.relativePath ∧ download.hash = hash :=
      List.any_map
    simp only [hsize, false_or, hany]
    refine Exec.wp_ite (fun hmem => ?_) fun hnone => ?_
    · rw [if_pos hmem]
      exact .refl h
    · rw [if_neg hnone]
      refine Exec.wp_mono (ledger_beginTransfer h (lacks_of_not_any hnone)) (fun _ n₁ h₁ => ?_)
        fun _ _ he => he
      obtain ⟨active, hactive, hbegun⟩ := h₁
      rw [hactive]
      exact hbegun

end Begin

/-! ### `Pump`, and the end of the process -/

omit [ContentHash H] in
/-- One round of `PersistPendingDownloads`. -/
theorem resting_persistDownload (force : Bool) (index : Nat) :
    Within (Fetcher.Resting chunkLedger) (persistDownload (H := H) force index) := by
  refine Exec.within_of_wp fun n => ?_
  rw [persistDownload, Exec.wp_bind, Exec.wp_state]
  split
  · exact refl_of (Fetcher.Resting chunkLedger) n
  · rename_i d hget
    refine Exec.wp_when (fun _ => ?_) fun _ => refl_of (Fetcher.Resting chunkLedger) n
    rw [Exec.wp_bind]
    refine Exec.wp_mono (ledger_persist _ _ n) (fun _ n₁ h₁ => ?_) fun e n₁ h₁ => .of_eq h₁.1
    rw [Exec.wp_update]
    intro haccounts
    have hb : d.batch ∈ n.chunkLedger.batches := List.mem_map_of_mem (List.mem_of_getElem? hget)
    have hnew := replaces_modify Download.batch Download.persisted hget
      haccounts.owners fun _ => rfl
    have hrests := Fetcher.Rests.persist haccounts hb hnew n.nowMs
    have hid : d.receiver.transferId = d.batch.transferId := (haccounts.each _ hb).receiver_id
    have hledger :
        chunkLedger { n₁ with downloads := n₁.downloads.modify index Download.persisted } =
        (n.chunkLedger.mark d.receiver.transferId d.dirtyChunks n.nowMs).withBatches
          ((n.downloads.modify index Download.persisted).map Download.batch) := by
      rw [← h₁.1, ← h₁.2]
      rfl
    rw [hledger, hid]
    exact hrests

omit [ContentHash H] in
theorem resting_persistPendingDownloads (force : Bool) :
    Within (Fetcher.Resting chunkLedger) (persistPendingDownloads (H := H) force) :=
  Exec.within_bind Exec.within_state fun _ =>
    Exec.within_forM fun index _ => resting_persistDownload force index

theorem resting_pumpUploads (done rest : List (PendingUpload H)) :
    Within (Fetcher.Resting chunkLedger) (pumpUploads done rest) := by
  induction rest generalizing done with
  | nil => exact Exec.within_update fun n => .of_eq rfl
  | cons upload rest ih =>
    refine Exec.within_bind Exec.within_state fun n => ?_
    split
    · exact Exec.within_bind (Exec.within_update fun n => .of_eq rfl) fun _ =>
        Exec.within_raise _
    · rename_i next session _
      refine Exec.within_bind ?_ fun _ => Exec.within_ite (fun _ => ih _) fun _ => ih _
      cases next with
      | none => exact Exec.within_pure _
      | some chunk => exact Exec.within_update fun n => .of_eq rfl

theorem resting_pump : Within (Fetcher.Resting chunkLedger) (pump (H := H)) :=
  Exec.within_bind Exec.within_state fun _ =>
    Exec.within_ite (fun _ => resting_persistPendingDownloads false) fun _ =>
      resting_pumpUploads _ _

omit [ContentHash H] in
theorem resting_restart (n : Node H) : Fetcher.Resting chunkLedger n n.restart :=
  fun haccounts => Fetcher.Rests.clear haccounts

/-! ### The node as a receiver -/

/-- A file the target is told to download.  A hash that does not decode is reported the way
`DecodeHash` does it. -/
structure Wanted (H : Type) where
  env : Environment
  entry : ManifestEntry H
  reported : NotLogic entry.decodeHash

/-- The calls that neither begin a download nor bring a chunk. -/
inductive OtherCall where
  | pump (env : Environment)
  /-- The destructor, and the constructor again. -/
  | shutdown (env : Environment)
  /-- The process dies between two calls, and the node is constructed again. -/
  | crash

/-- Make one of these calls. -/
def otherCall : OtherCall → NodeM H Unit
  | .pump env => fun n => pump { n with env }
  | .shutdown env => fun n =>
    ((persistPendingDownloads true { n with env }).1,
      (persistPendingDownloads true { n with env }).2.restart)
  | .crash => fun n => (.ok (), n.restart)

/-- A one-way node as a receiver. -/
def fetcher : Fetcher H (Node H) (Wanted H) OtherCall where
  ledger := chunkLedger
  begin wanted := fun n => beginDownload wanted.entry { n with env := wanted.env }
  resumes wanted n := Fetcher.resumable n.db n.config.peerDeviceId n.chunkLedger.batches
    wanted.entry.relativePath wanted.entry.decodeHash wanted.entry.size
  chunk env chunk := fun n => acceptChunk chunk { n with env }
  other := otherCall

/-- **The one-way node keeps the rules.** -/
theorem lawful : (fetcher (H := H)).Lawful where
  begin wanted n h := ledger_beginDownload (n := { n with env := wanted.env }) wanted.reported h
  chunk env chunk n h := ledger_acceptChunk chunk { n with env } h
  other call n := by
    cases call with
    | pump env => exact resting_pump { n with env }
    | shutdown env =>
      exact trans_of (Fetcher.Resting chunkLedger)
        (resting_persistPendingDownloads true { n with env }) (resting_restart _)
    | crash => exact resting_restart n

end Node

end OneWay

/-! ## The bidirectional node -/

namespace Node

variable {H : Type}

/-- The books of a bidirectional node. -/
def chunkLedger (n : Node H) : ChunkLedger H :=
  ⟨n.db.transfers, n.downloads.map ActiveDownload.batch⟩

variable {n : Node H} {receiver : DownloadReceiver H}

theorem notLogic_decodeHash (entry : VersionedManifestEntry H) : NotLogic (decodeHash entry) := by
  rw [decodeHash]
  split
  · exact notLogic_ok _
  · exact notLogic_error (by rintro ⟨⟩)

theorem notLogic_toRecord (taskId : Bytes) (entry : VersionedManifestEntry H) :
    NotLogic (toRecord taskId entry) := by
  refine notLogic_bind ?_ fun _ => notLogic_ite (notLogic_error (by rintro ⟨⟩)) (notLogic_ok _)
  exact notLogic_ite (notLogic_map (notLogic_decodeHash entry)) (notLogic_ok _)

theorem storageFailure_not_isLogic : ¬ storageFailure.IsLogic := nofun

theorem ledger_upsertRemoteRecord (entry : VersionedManifestEntry H) (n : Node H) :
    Wp (upsertRemoteRecord entry)
      (fun _ n' => n'.chunkLedger = n.chunkLedger ∧ n'.downloads = n.downloads)
      (fun e n' => n'.chunkLedger = n.chunkLedger ∧ ¬ e.IsLogic) n := by
  rw [upsertRemoteRecord, Exec.wp_bind, Exec.wp_state, Exec.wp_bind]
  refine Exec.wp_check (fun e he => ⟨rfl, notLogic_toRecord _ _ e he⟩) fun record _ => ?_
  refine wp_dbDo ⟨rfl, storageFailure_not_isLogic⟩
    (fun e he => ⟨rfl, Database.notLogic_upsertFileRecord _ _ e he⟩) fun db hdb => ?_
  obtain ⟨-, rfl⟩ := Database.upsertFileRecord_eq_ok hdb
  exact ⟨rfl, rfl⟩

/-- Marking chunks. -/
theorem ledger_persist (indices : List Nat) (n : Node H) :
    Wp (persistAcceptedChunks receiver indices)
      (fun _ n' => n'.chunkLedger = n.chunkLedger.mark receiver.transferId indices n.nowMs ∧
        n'.downloads = n.downloads)
      (fun e n' => n'.chunkLedger = n.chunkLedger ∧ ¬ e.IsLogic) n := by
  rw [persistAcceptedChunks, Exec.wp_bind]
  refine Exec.wp_check (fun e he => ⟨rfl, Folder.notLogic_flushPartial _ _ e he⟩) fun _ _ => ?_
  rw [Exec.wp_bind, Exec.wp_state]
  refine wp_dbDo ⟨rfl, storageFailure_not_isLogic⟩
    (fun e he => ⟨rfl, Database.notLogic_markTransferChunksCompleted _ _ _ _ e he⟩)
    fun db hdb => ?_
  exact ⟨mark_of_eq_ok hdb _, rfl⟩

variable [ContentHash H]

theorem owner_ledger (n : Node H) (chunk : Chunk H) :
    n.chunkLedger.owner chunk = (n.downloads.find? (ownsChunk chunk)).map ActiveDownload.batch := by
  have hsame : Batch.owns chunk ∘ ActiveDownload.batch = ownsChunk (H := H) chunk := by
    funext d
    exact Bool.decide_and _ _
  rw [ChunkLedger.owner, chunkLedger, List.find?_map, hsame]

/-- `Commit`, when no chunk is missing. -/
theorem ledger_commitReceiver (n : Node H)
    (hmarks : n.chunkLedger.marks receiver.transferId = List.range receiver.chunkCount) :
    Wp (commitReceiver receiver)
      (fun _ n' => n'.chunkLedger = n.chunkLedger.finish receiver.transferId n.nowMs ∧
        n'.downloads = n.downloads)
      (fun e n' => n'.chunkLedger = n.chunkLedger ∧ ¬ e.IsLogic) n := by
  rw [commitReceiver, Exec.wp_bind]
  refine Exec.wp_check_ok (a := ()) (if_pos hmarks) ?_
  rw [Exec.wp_bind]
  refine wp_folderDo ⟨rfl, storageFailure_not_isLogic⟩
    (fun e he => ⟨rfl, Folder.notLogic_commitPartial _ _ _ _ e he⟩) fun folder _ => ?_
  rw [Exec.wp_bind, Exec.wp_state]
  refine wp_dbDo ⟨rfl, storageFailure_not_isLogic⟩
    (fun e he => ⟨rfl, Database.notLogic_updateTransferState _ _ _ _ e he⟩) fun db hdb => ?_
  exact ⟨finish_of_eq_ok hdb _, rfl⟩

/-! ### `AcceptChunk` -/

section Accept

variable {chunk : Chunk H} {d : ActiveDownload H} {index : Nat} {l : ChunkLedger H} {b : Batch H}

omit [ContentHash H] in
theorem batch_accept (hlength : chunk.bytes.length = chunkLength d.receiver.expectedSize index) :
    (d.accept index chunk.bytes.length).batch = d.batch.take index := by
  rw [hlength]
  rfl

omit [ContentHash H] in
/-- What follows a commit: the record, if the file is for its formal path. -/
theorem ledger_whenUpsert (c : Prop) [Decidable c] (entry : VersionedManifestEntry H)
    (n : Node H) :
    Wp (Exec.when c (upsertRemoteRecord entry))
      (fun _ n' => n'.chunkLedger = n.chunkLedger ∧ n'.downloads = n.downloads)
      (fun e n' => n'.chunkLedger = n.chunkLedger ∧ ¬ e.IsLogic) n :=
  Exec.wp_when (fun _ => ledger_upsertRemoteRecord entry n) fun _ => ⟨rfl, rfl⟩

theorem ledger_settleDownload (h : l.Settling b index d.batch n.chunkLedger)
    (hfind : n.downloads.find? (ownsChunk chunk) = some d) :
    Wp (settleDownload chunk d) (fun _ n' => l.Takes b index n'.chunkLedger)
      (fun e n' => n'.chunkLedger.Accounts ∧ ¬ e.IsLogic) n := by
  refine Exec.wp_when (fun hcount => ?_) fun hcount => h.takes hcount
  rw [Exec.wp_bind, commitDownload, Exec.wp_bind]
  refine Exec.wp_mono (ledger_commitReceiver n (h.marks hcount)) (fun _ n₁ h₁ => ?_)
    fun e n₁ h₁ => ⟨h₁.1 ▸ h.accounts, h₁.2⟩
  obtain ⟨hledger₁, hsame₁⟩ := h₁
  refine Exec.wp_mono (ledger_whenUpsert _ _ n₁) (fun _ n₂ h₂ => ?_) fun e n₂ h₂ =>
    ⟨h₂.1 ▸ hledger₁ ▸ h.accounts.finish _ _, h₂.2⟩
  obtain ⟨hledger₂, hsame₂⟩ := h₂
  rw [Exec.wp_update]
  have howners : ((n.downloads.map ActiveDownload.batch).map Batch.transferId).Nodup :=
    h.accounts.owners
  have hnew := h.takes_finish n.nowMs
    ((n.downloads.eraseP (ownsChunk chunk)).map ActiveDownload.batch) hcount
    (List.eraseP_sublist.map _) fun x hx => (mem_eraseP_of_find _ hfind howners hx).2
  have hledger : chunkLedger { n₂ with downloads := n₂.downloads.eraseP (ownsChunk chunk) } =
      (n.chunkLedger.finish d.receiver.transferId n.nowMs).withBatches
        ((n.downloads.eraseP (ownsChunk chunk)).map ActiveDownload.batch) := by
    rw [← hledger₁, ← hledger₂, ← hsame₁, ← hsame₂]
    rfl
  rw [hledger]
  exact hnew

/-- The dirty chunks are marked, and the file is committed if it is complete. -/
theorem ledger_persistAccepted (h : l.Accounts) (hb : b ∈ l.batches) (hlt : index < b.chunkCount)
    (hfresh : index ∉ b.receiver.accepted) (hbatch : d.batch = b.take index)
    (hfind : n.downloads.find? (ownsChunk chunk) = some d)
    (hnew : Replaces b (b.take index) l.batches n.chunkLedger.batches)
    (hledger : n.chunkLedger = l.withBatches n.chunkLedger.batches) :
    Wp (do
        persistAcceptedChunks d.receiver d.dirtyChunks
        Exec.update fun n =>
          { n with downloads := updateFirst (ownsChunk chunk) ActiveDownload.persisted n.downloads }
        settleDownload chunk d.persisted)
      (fun _ n' => l.Takes b index n'.chunkLedger)
      (fun e n' => n'.chunkLedger.Accounts ∧ ¬ e.IsLogic) n := by
  have haccounts : n.chunkLedger.Accounts := hledger ▸ h.accept hb hlt hfresh hnew
  have hmem : d.batch ∈ n.chunkLedger.batches :=
    List.mem_map_of_mem (List.mem_of_find?_eq_some hfind)
  have howns : ownsChunk chunk d = true := List.find?_some hfind
  have howners : ((n.downloads.map ActiveDownload.batch).map Batch.transferId).Nodup :=
    haccounts.owners
  rw [Exec.wp_bind]
  refine Exec.wp_mono (ledger_persist _ n) (fun _ n₁ h₁ => ?_) fun e n₁ h₁ =>
    ⟨h₁.1 ▸ haccounts, h₁.2⟩
  obtain ⟨hledger₁, hsame₁⟩ := h₁
  rw [Exec.wp_bind, Exec.wp_update]
  have hid : d.receiver.transferId = b.transferId := by
    rw [show d.receiver = (b.take index).receiver from congrArg Batch.receiver hbatch]
    exact (h.each b hb).receiver_id
  have hdirty : d.dirtyChunks = (b.take index).dirtyChunks := congrArg Batch.dirtyChunks hbatch
  have hpersisted : d.persisted.batch = (b.take index).persisted := by
    rw [← hbatch]
    rfl
  have hreplaces := replaces_updateFirst ActiveDownload.batch ActiveDownload.persisted
    hfind howners fun _ => rfl
  rw [hbatch, hpersisted] at hreplaces
  rw [hbatch] at hmem
  have hsettling := h.settling_persisted n.nowMs hb hlt hfresh hnew hreplaces hmem
  refine ledger_settleDownload (b := b) (l := l) ?_ ?_
  · rw [hpersisted]
    have hnext : chunkLedger { n₁ with
          downloads := updateFirst (ownsChunk chunk) ActiveDownload.persisted n₁.downloads } =
        ((l.withBatches n.chunkLedger.batches).mark b.transferId
          (b.take index).dirtyChunks n.nowMs).withBatches
          ((updateFirst (ownsChunk chunk) ActiveDownload.persisted n.downloads).map
            ActiveDownload.batch) := by
      rw [← hledger, ← hid, ← hdirty, ← hledger₁, ← hsame₁]
      rfl
    rw [hnext]
    exact hsettling
  · show (updateFirst (ownsChunk chunk) ActiveDownload.persisted n₁.downloads).find?
      (ownsChunk chunk) = _
    rw [hsame₁]
    exact find?_updateFirst hfind howns

/-- **`AcceptChunk`** on the books. -/
theorem ledger_acceptInto (h : n.chunkLedger.Accounts)
    (hfind : n.downloads.find? (ownsChunk chunk) = some d) :
    Wp (acceptInto chunk d) (fun _ n' => n.chunkLedger.Served chunk n'.chunkLedger)
      (fun e n' => n.chunkLedger.Failed chunk e n'.chunkLedger) n := by
  have howner : n.chunkLedger.owner chunk = some d.batch := by rw [owner_ledger, hfind]; rfl
  have hb : d.batch ∈ n.chunkLedger.batches := ChunkLedger.owner_mem howner
  have howns : ownsChunk chunk d = true := List.find?_some hfind
  rw [acceptInto]
  simp only
  rw [Exec.wp_bind]
  refine Exec.wp_check (fun e he => ⟨h, ?_, fun _ => rfl⟩) fun _ hcheck => ?_
  · have hchecks : NotLogic (d.receiver.checkChunk (chunk.offset / logicalChunkSize) chunk.offset
        chunk.bytes chunk.chunkHash) := notLogic_ite (notLogic_error (by rintro ⟨⟩)) (notLogic_ok _)
    exact hchecks e he
  have hvalid : d.batch.check chunk = .ok () := hcheck
  refine Exec.wp_ite (fun hmem => ⟨d.batch, howner, hvalid, .inl ⟨hmem, rfl⟩⟩) fun hfresh => ?_
  obtain ⟨hlt, hlength⟩ := Batch.check_eq_ok hvalid
  rw [(h.each _ hb).receiver_count] at hlt
  refine Exec.wp_mono (Q := fun _ n' => n.chunkLedger.Takes d.batch
      (chunk.offset / logicalChunkSize) n'.chunkLedger)
    (E := fun e n' => n'.chunkLedger.Accounts ∧ ¬ e.IsLogic) ?_
    (fun _ _ h' => ⟨d.batch, howner, hvalid, .inr ⟨hfresh, h'⟩⟩)
    fun e _ h' => ChunkLedger.failed_of_valid howner hvalid h'.1 h'.2
  rw [Exec.wp_bind]
  refine wp_folderDo ⟨h, storageFailure_not_isLogic⟩
    (fun e he => ⟨h, Folder.notLogic_writePartialChunk _ _ _ _ e he⟩) fun folder _ => ?_
  rw [Exec.wp_bind, Exec.wp_update]
  have hbatch := batch_accept (d := d) hlength
  have hnew := replaces_updateFirst ActiveDownload.batch
    (fun d' => d'.accept (chunk.offset / logicalChunkSize) chunk.bytes.length) hfind h.owners
    fun _ => rfl
  rw [hbatch] at hnew
  have hfind₂ := find?_updateFirst
    (f := fun d' : ActiveDownload H =>
      d'.accept (chunk.offset / logicalChunkSize) chunk.bytes.length) hfind howns
  refine Exec.wp_ite (fun _ => ?_) fun hcount => ?_
  · refine ledger_persistAccepted h hb hlt hfresh hbatch ?_ ?_ rfl
    · exact hfind₂
    · exact hnew
  · rw [not_or] at hcount
    refine ledger_settleDownload ?_ hfind₂
    rw [hbatch]
    exact h.settling_dirty hb hlt hfresh hnew (hbatch ▸ hcount.2)

theorem ledger_acceptChunk (chunk : Chunk H) (n : Node H) (h : n.chunkLedger.Accounts) :
    Wp (acceptChunk chunk) (fun _ n' => n.chunkLedger.Served chunk n'.chunkLedger)
      (fun e n' => n.chunkLedger.Failed chunk e n'.chunkLedger) n := by
  rw [acceptChunk, Exec.wp_bind, Exec.wp_state]
  split
  · exact ⟨h, id, fun _ => rfl⟩
  · rename_i d hfind
    exact ledger_acceptInto h hfind

end Accept

/-! ### `BeginDownload` -/

section Begin

variable {p : Path} {hash : H}

theorem lacks_of_not_any (h : ¬ n.downloads.any fun active =>
    active.destinationPath = p ∧ active.hash = hash) : n.chunkLedger.Lacks p hash := by
  intro b hb hgoal
  obtain ⟨d, hd, rfl⟩ := List.mem_map.mp hb
  exact h (List.any_eq_true.mpr ⟨d, hd, decide_eq_true hgoal⟩)

omit [ContentHash H] in
theorem ledger_append (n : Node H) (d : ActiveDownload H) :
    chunkLedger { n with downloads := n.downloads ++ [d] } =
      n.chunkLedger.withBatches (n.chunkLedger.batches ++ [d.batch]) := by
  rw [chunkLedger, List.map_append]
  rfl

/-- The transfer of a download. -/
theorem ledger_openTransfer (h : n.chunkLedger.Accounts) (hlacks : n.chunkLedger.Lacks p hash) :
    Wp (openTransfer p hash)
      (fun id n' => ∃ active,
        n.db.findActiveDownloadTransfer n.config.peerDeviceId p hash = .ok active ∧
          n.chunkLedger.Opened active p hash id n'.chunkLedger)
      (fun e n' => n'.chunkLedger.Accounts ∧ ¬ e.IsLogic) n := by
  rw [openTransfer, Exec.wp_bind, Exec.wp_state, Exec.wp_bind]
  refine Exec.wp_check (fun e he => ⟨h, Database.notLogic_findActiveDownloadTransfer _ _ _ _ e he⟩)
    fun active hactive => ?_
  cases active with
  | some t =>
    obtain ⟨ht, hpath, hhash, hstate⟩ := findActiveDownloadTransfer_eq_ok hactive
    exact ⟨some t, hactive, h.opened_found hlacks ht hpath hhash hstate⟩
  | none =>
    rw [Exec.wp_bind, wp_newTransferId, Exec.wp_bind]
    refine wp_folderDo ⟨h, storageFailure_not_isLogic⟩
      (fun e he => ⟨h, Folder.notLogic_discardPartial _ _ e he⟩) fun folder _ => ?_
    rw [Exec.wp_bind]
    refine wp_dbDo ⟨h, storageFailure_not_isLogic⟩
      (fun e he => ⟨h, Database.notLogic_createTransfer _ _ e he⟩) fun db hdb => ?_
    obtain ⟨hnew, rfl⟩ := Database.createTransfer_eq_ok hdb
    exact ⟨none, hactive, h.opened_created hnew rfl rfl⟩

theorem ledger_beginTransfer {entry : VersionedManifestEntry H} (applyFormalRecord : Bool)
    (against : Option VersionId) (h : n.chunkLedger.Accounts)
    (hlacks : n.chunkLedger.Lacks p hash) :
    Wp (beginTransfer entry p applyFormalRecord hash against)
      (fun _ n' => ∃ active,
        n.db.findActiveDownloadTransfer n.config.peerDeviceId p hash = .ok active ∧
        Fetcher.Begun n.chunkLedger (active.map fun t => (t, chunkCount entry.size)) n'.chunkLedger)
      (fun e n' => n'.chunkLedger.Accounts ∧ ¬ e.IsLogic) n := by
  rw [beginTransfer, Exec.wp_bind]
  refine Exec.wp_mono (ledger_openTransfer h hlacks) (fun id n₁ h₁ => ?_) fun _ _ he => he
  obtain ⟨active, hactive, hopened⟩ := h₁
  have hkept := hopened.accounts.kept.pairwise_marks id
  rw [Exec.wp_bind]
  refine Exec.wp_check (fun e he => ⟨hopened.accounts, DownloadReceiver.notLogic_create _ _ _ _ _ _
    e he⟩) fun receiver hreceiver => ?_
  obtain ⟨hlt, rfl⟩ := DownloadReceiver.create_eq_ok hreceiver
  rw [Exec.wp_bind]
  refine Exec.wp_check (fun e he => ⟨hopened.accounts, DownloadReceiver.notLogic_resumeRequest _ _
    e he⟩) fun request hrequest => ?_
  obtain ⟨hcount, hnil⟩ := DownloadReceiver.resumeRequest_eq_nil hrequest hkept
  refine Exec.wp_ite (fun hnone => ?_) fun hsome => ?_
  · have hmarks := hnil.mp hnone
    rw [Exec.wp_bind]
    refine Exec.wp_mono (ledger_commitReceiver n₁ hmarks) (fun _ n₂ h₂ => ?_) fun e n₂ h₂ =>
      ⟨h₂.1 ▸ hopened.accounts, h₂.2⟩
    refine Exec.wp_mono (ledger_whenUpsert _ _ n₂) (fun _ n₃ h₃ => ?_) fun e n₃ h₃ =>
      ⟨h₃.1 ▸ h₂.1 ▸ hopened.accounts.finish _ _, h₃.2⟩
    refine ⟨active, hactive, ?_⟩
    rw [h₃.1, h₂.1]
    exact .of_finish hopened hcount hmarks _
  · have hbegun := Fetcher.Begun.of_append hopened (hopened.accounted hlt) rfl rfl rfl
      fun hmarks => hsome (hnil.mpr hmarks)
    rw [Exec.wp_bind, Exec.wp_update, wp_send]
    refine ⟨active, hactive, ?_⟩
    show Fetcher.Begun _ _ (chunkLedger { n₁ with downloads := n₁.downloads ++ [_] })
    rw [ledger_append]
    exact hbegun

/-- **`BeginDownload`** on the books. -/
theorem ledger_beginDownload {entry : VersionedManifestEntry H} (p : Path)
    (applyFormalRecord : Bool) (against : Option VersionId) (h : n.chunkLedger.Accounts) :
    Wp (beginDownload entry p applyFormalRecord against)
      (fun _ n' => Fetcher.Begun n.chunkLedger
        (Fetcher.resumable n.db n.config.peerDeviceId n.chunkLedger.batches p (decodeHash entry)
          entry.size) n'.chunkLedger)
      (fun e n' => n'.chunkLedger.Accounts ∧ ¬ e.IsLogic) n := by
  rw [beginDownload, Exec.wp_bind]
  refine Exec.wp_check (fun e he => ⟨h, notLogic_decodeHash entry e he⟩) fun hash hhash => ?_
  rw [Exec.wp_bind, Exec.wp_state, hhash, Fetcher.resumable]
  have hany : (n.chunkLedger.batches.any fun b => b.path = p ∧ b.hash = hash) =
      n.downloads.any fun active => active.destinationPath = p ∧ active.hash = hash :=
    List.any_map
  refine Exec.wp_ite (fun hmem => ?_) fun hnone => ?_
  · rw [if_pos (.inr (hany.trans hmem))]
    exact .refl h
  rw [Exec.wp_bind]
  refine Exec.wp_check (fun e he => ⟨h, Folder.notLogic_resolveTaskPath _ e he⟩) fun _ _ => ?_
  rw [Exec.wp_bind]
  -- what clearing the destination leaves of the node
  let Cleared (n' : Node H) : Prop :=
    n'.chunkLedger = n.chunkLedger ∧ n'.db = n.db ∧ n'.config = n.config
  have hclear : Wp (Exec.when (n.folder.isDirectory p)
      (folderDo fun folder => folder.removeEmptyDirectory p)) (fun _ => Cleared)
      (fun e n' => n'.chunkLedger.Accounts ∧ ¬ e.IsLogic) n :=
    Exec.wp_when (fun _ => wp_folderDo ⟨h, storageFailure_not_isLogic⟩
      (fun e he => ⟨h, Folder.notLogic_removeEmptyDirectory _ _ e he⟩) fun _ _ => ⟨rfl, rfl, rfl⟩)
      fun _ => ⟨rfl, rfl, rfl⟩
  refine Exec.wp_mono hclear (fun _ n₁ h₁ => ?_) fun _ _ he => he
  obtain ⟨hledger, hdb, hconfig⟩ := h₁
  rw [← hledger] at h ⊢
  rw [← hdb, ← hconfig]
  refine Exec.wp_ite (fun hsize => ?_) fun hsize => ?_
  · rw [if_pos (.inl hsize), Exec.wp_bind]
    refine wp_folderDo ⟨h, storageFailure_not_isLogic⟩
      (fun e he => ⟨h, Folder.notLogic_writeAtomically _ _ _ e he⟩) fun folder _ => ?_
    refine Exec.wp_mono (ledger_whenUpsert _ _ _) (fun _ n₂ h₂ => ?_) fun e n₂ h₂ =>
      ⟨h₂.1 ▸ h, h₂.2⟩
    rw [h₂.1]
    exact .refl h
  · have hlacks : n₁.chunkLedger.Lacks p hash := hledger ▸ lacks_of_not_any hnone
    have hnot : ¬ (entry.size = 0 ∨
        (n₁.chunkLedger.batches.any fun b => b.path = p ∧ b.hash = hash)) := by
      rw [hledger, hany]
      exact not_or.mpr ⟨hsize, hnone⟩
    rw [if_neg hnot]
    refine Exec.wp_mono (ledger_beginTransfer _ _ h hlacks) (fun _ n₂ h₂ => ?_) fun _ _ he => he
    obtain ⟨active, hactive, hbegun⟩ := h₂
    rw [hactive]
    exact hbegun

end Begin

/-! ### `Pump`, and the end of the process -/

omit [ContentHash H] in
theorem resting_of_controlMove {n n' : Node H} (h : ControlMove n n') :
    Fetcher.Resting chunkLedger n n' := by
  refine .of_eq ?_
  show ChunkLedger.mk n'.data.transfers (n'.data.downloads.map ActiveDownload.batch) = _
  rw [h.data]
  rfl

omit [ContentHash H] in
theorem resting_pumpDownload (index : Nat) :
    Within (Fetcher.Resting chunkLedger) (pumpDownload (H := H) index) := by
  refine Exec.within_of_wp fun n => ?_
  rw [pumpDownload, Exec.wp_bind, Exec.wp_state]
  split
  · exact refl_of (Fetcher.Resting chunkLedger) n
  · rename_i d hget
    refine Exec.wp_when (fun _ => ?_) fun _ => refl_of (Fetcher.Resting chunkLedger) n
    rw [Exec.wp_bind]
    refine Exec.wp_mono (ledger_persist _ n) (fun _ n₁ h₁ => ?_) fun e n₁ h₁ => .of_eq h₁.1
    rw [Exec.wp_update]
    intro haccounts
    have hb : d.batch ∈ n.chunkLedger.batches := List.mem_map_of_mem (List.mem_of_getElem? hget)
    have hnew := replaces_modify ActiveDownload.batch ActiveDownload.persisted hget
      haccounts.owners fun _ => rfl
    have hrests := Fetcher.Rests.persist haccounts hb hnew n.nowMs
    have hid : d.receiver.transferId = d.batch.transferId := (haccounts.each _ hb).receiver_id
    have hledger :
        chunkLedger { n₁ with downloads := n₁.downloads.modify index ActiveDownload.persisted } =
          (n.chunkLedger.mark d.receiver.transferId d.dirtyChunks n.nowMs).withBatches
            ((n.downloads.modify index ActiveDownload.persisted).map ActiveDownload.batch) := by
      rw [← h₁.1, ← h₁.2]
      rfl
    rw [hledger, hid]
    exact hrests

theorem resting_pumpUploads (done rest : List (PendingUpload H)) :
    Within (Fetcher.Resting chunkLedger) (pumpUploads done rest) := by
  induction rest generalizing done with
  | nil => exact Exec.within_update fun n => .of_eq rfl
  | cons upload rest ih =>
    refine Exec.within_bind Exec.within_state fun n => ?_
    split
    · exact Exec.within_bind (Exec.within_update fun n => .of_eq rfl) fun _ =>
        Exec.within_raise _
    · rename_i next session _
      refine Exec.within_bind ?_ fun _ => Exec.within_ite (fun _ => ih _) fun _ => ih _
      cases next with
      | none => exact Exec.within_pure _
      | some chunk => exact Exec.within_update fun n => .of_eq rfl

theorem resting_pump : Within (Fetcher.Resting chunkLedger) (pump (H := H)) := by
  refine Exec.within_bind Exec.within_state fun _ => Exec.within_bind ?_ fun _ =>
    Exec.within_bind Exec.within_state fun n => Exec.within_ite (fun _ => Exec.within_pure _)
      fun _ => ?_
  · exact Exec.within_when fun _ =>
      within_of_controlMove (fun _ _ => resting_of_controlMove) controlMove_retryPolicy
  · exact Exec.within_bind (resting_pumpUploads _ _) fun _ =>
      Exec.within_forM fun index _ => resting_pumpDownload index

/-! ### The node as a receiver -/

/-- A file the node is told to download. -/
structure Wanted (H : Type) where
  env : Environment
  entry : VersionedManifestEntry H
  destinationPath : Path
  applyFormalRecord : Bool
  against : Option VersionId

/-- The calls that neither begin a download nor bring a chunk. -/
inductive OtherCall where
  | pump (env : Environment)
  /-- The process ends, and the node is constructed again. -/
  | restart
  /-- After `k` more operations the storage fails. -/
  | fault (k : Nat)

/-- Make one of these calls. -/
def otherCall : OtherCall → NodeM H Unit
  | .pump env => fun n => pump { n with env }
  | .restart => fun n => (.ok (), n.restart)
  | .fault k => fun n => (.ok (), { n with faultAfter := some k })

/-- A bidirectional node as a receiver. -/
def fetcher : Fetcher H (Node H) (Wanted H) OtherCall where
  ledger := chunkLedger
  begin wanted := fun n =>
    beginDownload wanted.entry wanted.destinationPath wanted.applyFormalRecord wanted.against
      { n with env := wanted.env }
  resumes wanted n := Fetcher.resumable n.db n.config.peerDeviceId n.chunkLedger.batches
    wanted.destinationPath (decodeHash wanted.entry) wanted.entry.size
  chunk env chunk := fun n => acceptChunk chunk { n with env }
  other := otherCall

/-- **The bidirectional node keeps the rules.** -/
theorem lawful : (fetcher (H := H)).Lawful where
  begin wanted n h := ledger_beginDownload (n := { n with env := wanted.env }) _ _ _ h
  chunk env chunk n h := ledger_acceptChunk chunk { n with env } h
  other call n := by
    cases call with
    | pump env => exact resting_pump { n with env }
    | restart => exact fun haccounts => Fetcher.Rests.clear haccounts
    | fault k => exact Fetcher.Resting.of_eq rfl

end Node

/-! ## The accounts of both nodes -/

variable {H : Type} [ContentHash H]

/-- **The chunk accounts of a one-way and of a bidirectional node are right in every run** from a
node that has just been constructed: the durable chunks are the marks of the database, the dirty
ones are the others that have been accepted, the bytes received are theirs and no more than the
file has, and a download is committed when the accepted chunks become the whole file, once, and at
no other time. -/
theorem chunk_accounting :
    (∀ n : OneWay.Node H, n.chunkLedger.Kept → n.downloads = [] →
      ∀ events, OneWay.Node.fetcher.BooksKept n events) ∧
    (∀ n : Node H, n.chunkLedger.Kept → n.downloads = [] →
      ∀ events, Node.fetcher.BooksKept n events) := by
  constructor
  · intro n hkept hnone events
    refine OneWay.Node.lawful.booksKept hkept ?_ events
    show n.downloads.map OneWay.Download.batch = []
    rw [hnone, List.map_nil]
  · intro n hkept hnone events
    refine Node.lawful.booksKept hkept ?_ events
    show n.downloads.map ActiveDownload.batch = []
    rw [hnone, List.map_nil]

/-! ### Two files at a time

The file `f` has one chunk and `g` has two.  The last chunk of `g` comes first, a chunk of `f` comes
with a wrong offset, the process ends, both files are begun again in the other order, and then all
these chunks arrive, that of `f` twice.  The first chunk of `g` never comes. -/

/-- A hash that is easy to compute, since the accounts do not depend on what it says. -/
instance firstByte : ContentHash UInt8 where
  blake3 content := content.headD 0

/-- A file that a sample one-way target is told to download. -/
def OneWay.Node.sampleWanted (p : Path) (size : Nat) (hash : UInt8) : OneWay.Node.Wanted UInt8 :=
  ⟨sampleEnvironment, ⟨p, size, .hash hash⟩, notLogic_ok _⟩

/-- The same file for a sample bidirectional node. -/
def Node.sampleWanted (p : Path) (size : Nat) (hash : UInt8) : Node.Wanted UInt8 :=
  ⟨sampleEnvironment, ⟨p, .file, size, some hash, ascii "v", ascii "b", 1, [], none⟩, p, true, none⟩

/-- The chunk of `f`, at an offset. -/
def onlyChunk (offset : Nat) : Chunk UInt8 := ⟨1, 7, offset, 7, [7]⟩

/-- The last chunk of `g`. -/
def lastChunk : Chunk UInt8 := ⟨2, 1, logicalChunkSize, 2, [2]⟩

/-- What happens to either node. -/
def sampleArrivals {β γ : Type} (file : Path → Nat → UInt8 → β) (stop : γ) :
    List (Fetcher.Event UInt8 β γ) :=
  let f := file (ascii "f") 1 7
  let g := file (ascii "g") (logicalChunkSize + 1) 1
  [.begin f, .begin g, .chunk sampleEnvironment lastChunk,
    .chunk sampleEnvironment (onlyChunk 1), .other stop, .begin g, .begin f,
    .chunk sampleEnvironment (onlyChunk 0), .chunk sampleEnvironment lastChunk,
    .chunk sampleEnvironment (onlyChunk 0)]

/-- A sample one-way target with an empty folder. -/
def OneWay.Node.sampleFetcher : OneWay.Node UInt8 :=
  .create sampleTarget.config sampleEnvironment (fun i => List.replicate (i + 1) 1) (· + 1) 0
    .empty (.empty [])

/-- A sample bidirectional node with an empty folder. -/
def Node.sampleFetcher : Node UInt8 :=
  .create Side.a.config sampleEnvironment (fun i => List.replicate (i + 1) 1) (· + 1) (.empty [])

/-- What a node that is sent these has: how often `f` was committed, the marks of `g` in the
database, and the chunks of `g` that are accepted and those of them that are dirty. -/
def outcome {σ β γ : Type} (M : Fetcher UInt8 σ β γ) (s : σ)
    (events : List (Fetcher.Event UInt8 β γ)) :
    Nat × List Nat × List (List Nat × List Nat) :=
  let ledger := M.ledger (Run.run M.step s events)
  (M.commits 1 s events, ledger.marks 2,
    ledger.batches.map fun b => (b.receiver.accepted, b.dirtyChunks))

/-- The books are kept, and `f` is committed once.  The destructor of the target has marked the
chunk of `g` before it stops, so the target resumes with it; the other node has it anew. -/
theorem chunk_accounting_arrivals :
    let target := sampleArrivals OneWay.Node.sampleWanted (.shutdown sampleEnvironment)
    let peer := sampleArrivals Node.sampleWanted .restart
    (OneWay.Node.fetcher.BooksKept .sampleFetcher target ∧
      outcome OneWay.Node.fetcher .sampleFetcher target = (1, [1], [([1], [])])) ∧
    (Node.fetcher.BooksKept .sampleFetcher peer ∧
      outcome Node.fetcher .sampleFetcher peer = (1, [], [([1], [1])])) :=
  ⟨⟨chunk_accounting.1 _ (ChunkLedger.kept_of_nil rfl) rfl _, by decide +kernel⟩,
    ⟨chunk_accounting.2 _ (ChunkLedger.kept_of_nil rfl) rfl _, by decide +kernel⟩⟩

end VeritasSync
