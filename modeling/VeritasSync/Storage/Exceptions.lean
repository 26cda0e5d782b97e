import VeritasSync.Storage.Folder

/-!
# Which exceptions the storage throws

`std::logic_error` is how the engine reports that a function was called out of turn.  No operation
of the folder or of the database throws it: they report what they were given
(`std::invalid_argument`) or what they found (`std::runtime_error`).  So when a function of a node
ends with a `std::logic_error`, one of the node's own checks has failed.

The lemmas are one for each operation that a node calls, and they all go the same way: a function
that is built from checks throws what its checks throw.  They are used in one place, the proof that
the chunks of a transfer are accounted for, where an exception of this class would mean that the
bookkeeping of the node had gone wrong.
-/

set_option autoImplicit false

namespace VeritasSync

/-- The exception is a `std::logic_error`. -/
def Error.IsLogic : Error → Prop
  | .logicError _ => True
  | _ => False

/-- If the computation throws, it does not throw a `std::logic_error`. -/
def NotLogic {α : Type} (x : Except Error α) : Prop := ∀ e, x = .error e → ¬ e.IsLogic

section Rules

variable {α β : Type}

theorem notLogic_ok (a : α) : NotLogic (.ok a : Except Error α) := nofun

theorem notLogic_error {e : Error} (h : ¬ e.IsLogic) : NotLogic (.error e : Except Error α) := by
  intro e' heq
  cases heq
  exact h

theorem notLogic_bind {x : Except Error α} {f : α → Except Error β} (hx : NotLogic x)
    (hf : ∀ a, NotLogic (f a)) : NotLogic (x >>= f) := by
  intro e heq
  cases x with
  | error e' =>
    cases heq
    exact hx _ rfl
  | ok a => exact hf a e heq

theorem notLogic_map {x : Except Error α} {f : α → β} (hx : NotLogic x) :
    NotLogic (x.map f) := by
  intro e heq
  cases x with
  | error e' =>
    cases heq
    exact hx _ rfl
  | ok a => cases heq

theorem notLogic_ite {c : Prop} [Decidable c] {x y : Except Error α} (hx : NotLogic x)
    (hy : NotLogic y) : NotLogic (if c then x else y) := by
  split
  · exact hx
  · exact hy

theorem notLogic_forM {l : List α} {f : α → Except Error PUnit} (hf : ∀ a, NotLogic (f a)) :
    NotLogic (l.forM f) := by
  induction l with
  | nil => exact notLogic_ok _
  | cons a l ih => exact notLogic_bind (hf a) fun _ => ih

end Rules

/-! ## The folder -/

namespace Folder

theorem notLogic_checkComponent (component : Bytes) : NotLogic (checkComponent component) :=
  notLogic_ite (notLogic_error id) <| notLogic_ite (notLogic_error id) <|
    notLogic_ite (notLogic_error id) (notLogic_ok _)

theorem notLogic_resolveTaskPath (p : Path) : NotLogic (resolveTaskPath p) :=
  notLogic_ite (notLogic_error id) <| notLogic_ite (notLogic_error id) <|
    notLogic_forM notLogic_checkComponent

theorem notLogic_makeDirectories (links ds : List Path) (t : Tree) :
    NotLogic (makeDirectories links ds t) := by
  induction ds generalizing t with
  | nil => exact notLogic_ok _
  | cons d ds ih =>
    rw [makeDirectories]
    split
    · exact ih _
    · exact notLogic_ite (notLogic_error id) (ih _)
    · exact notLogic_error id

theorem notLogic_ensureParents (f : Folder) (p : Path) : NotLogic (f.ensureParents p) := by
  rw [ensureParents]
  split
  · exact notLogic_ok _
  · rename_i e h
    exact notLogic_error (notLogic_makeDirectories _ _ _ e h)

theorem notLogic_rejectSymlink (f : Folder) (p : Path) (message : String) :
    NotLogic (f.rejectSymlink p message) := notLogic_ite (notLogic_error id) (notLogic_ok _)

theorem notLogic_commitContent (f : Folder) (p : Path) (content : Bytes)
    (hparents : ∀ d, IsBelow d p → f.tree.find d = some .directory) :
    NotLogic (f.commitContent p content hparents) := by
  rw [commitContent]
  split
  · exact notLogic_error id
  · exact notLogic_ok _

theorem notLogic_writeAtomically (f : Folder) (p : Path) (bytes : Bytes) :
    NotLogic (f.writeAtomically p bytes) :=
  notLogic_bind (notLogic_resolveTaskPath p) fun _ =>
    notLogic_bind (f.notLogic_ensureParents p) fun g =>
      notLogic_bind (g.1.notLogic_rejectSymlink _ _) fun _ => g.1.notLogic_commitContent _ _ _

theorem notLogic_writePartialChunk (f : Folder) (p : Path) (offset : Nat) (bytes : Bytes) :
    NotLogic (f.writePartialChunk p offset bytes) := by
  refine notLogic_ite (notLogic_error id) <| notLogic_ite (notLogic_error id) <|
    notLogic_bind (notLogic_resolveTaskPath p) fun _ =>
      notLogic_bind (f.notLogic_ensureParents _) fun g =>
        notLogic_bind (g.1.notLogic_rejectSymlink _ _) fun _ =>
          notLogic_bind (g.1.notLogic_rejectSymlink _ _) fun _ => ?_
  split
  · exact notLogic_error id
  · exact notLogic_ok _

theorem notLogic_flushPartial (f : Folder) (p : Path) : NotLogic (f.flushPartial p) :=
  notLogic_bind (notLogic_resolveTaskPath p) fun _ =>
    notLogic_bind (f.notLogic_rejectSymlink _ _) fun _ =>
      notLogic_ite (notLogic_error id) (notLogic_ok _)

theorem notLogic_discardPartial (f : Folder) (p : Path) : NotLogic (f.discardPartial p) := by
  refine notLogic_bind (notLogic_resolveTaskPath p) fun _ =>
    notLogic_bind (f.notLogic_rejectSymlink _ _) fun _ => ?_
  split
  · exact notLogic_ok _
  · exact notLogic_error id
  · exact notLogic_ok _

theorem notLogic_commitPartial {H : Type} [ContentHash H] (f : Folder) (p : Path) (size : Nat)
    (hash : H) : NotLogic (f.commitPartial p size hash) := by
  refine notLogic_bind (notLogic_resolveTaskPath p) fun _ =>
    notLogic_bind (f.notLogic_rejectSymlink _ _) fun _ =>
      notLogic_bind (f.notLogic_rejectSymlink _ _) fun _ => ?_
  split
  · refine notLogic_ite (notLogic_error id) (notLogic_ite (notLogic_error id) ?_)
    dsimp only
    split
    · exact notLogic_commitContent _ _ _ _
    · exact notLogic_error id
  · exact notLogic_error id

theorem notLogic_removeEmptyDirectory (f : Folder) (p : Path) :
    NotLogic (f.removeEmptyDirectory p) := by
  refine notLogic_bind (notLogic_resolveTaskPath p) fun _ =>
    notLogic_bind (f.notLogic_rejectSymlink _ _) fun _ => ?_
  split
  · exact notLogic_ok _
  · exact notLogic_error id
  · split
    · exact notLogic_ok _
    · exact notLogic_error id

end Folder

/-! ## The database -/

namespace Database

variable {H : Type}

theorem notLogic_validateRelativePath (p : Path) : NotLogic (validateRelativePath p) :=
  notLogic_ite (notLogic_error id) <| notLogic_ite (notLogic_error id) (notLogic_ok _)

theorem notLogic_upsertFileRecord (db : Database H) (record : FileRecord H) :
    NotLogic (db.upsertFileRecord record) := by
  refine notLogic_bind ?_ fun _ => notLogic_ok _
  refine notLogic_ite (notLogic_error id) <|
    notLogic_bind (notLogic_validateRelativePath _) fun _ => ?_
  exact notLogic_ite (notLogic_error id) <| notLogic_ite (notLogic_error id) <|
    notLogic_ite (notLogic_error id) (notLogic_ok _)

theorem notLogic_createTransfer (db : Database H) (transfer : TransferRecord H) :
    NotLogic (db.createTransfer transfer) := by
  refine notLogic_bind ?_ fun _ => notLogic_ite (notLogic_error id) (notLogic_ok _)
  exact notLogic_ite (notLogic_error id) <|
    notLogic_ite (notLogic_validateRelativePath _) (notLogic_ok _)

theorem notLogic_updateTransfer (db : Database H) (transferId : TransferId)
    (f : TransferRecord H → TransferRecord H) : NotLogic (db.updateTransfer transferId f) :=
  notLogic_ite (notLogic_ok _) (notLogic_error id)

theorem notLogic_markTransferChunksCompleted (db : Database H) (transferId : TransferId)
    (indices : List Nat) (now : Int) :
    NotLogic (db.markTransferChunksCompleted transferId indices now) :=
  notLogic_ite (notLogic_error id) (db.notLogic_updateTransfer _ _)

theorem notLogic_updateTransferState (db : Database H) (transferId : TransferId)
    (state : TransferState) (now : Int) : NotLogic (db.updateTransferState transferId state now) :=
  notLogic_ite (notLogic_error id) (db.notLogic_updateTransfer _ _)

theorem notLogic_findActiveDownloadTransfer [DecidableEq H] (db : Database H) (peer : DeviceId)
    (p : Path) (hash : H) : NotLogic (db.findActiveDownloadTransfer peer p hash) := by
  refine notLogic_ite (notLogic_error id) <|
    notLogic_bind (notLogic_validateRelativePath p) fun _ => ?_
  split
  · exact notLogic_ok _
  · exact notLogic_ok _

end Database

end VeritasSync
