import VeritasSync.Lib.Run
import VeritasSync.Sync.Receive

/-!
# Two peers and the channels between them

A node changes when one of its functions is called, when a frame reaches it, or when its process
dies and is started again: `Node.perform`.  The user's edits of the folder are among the calls.

A `World` is two nodes with two queues in each direction, one for each channel.  What a node sends
during a step joins the queues towards its peer.  An action performs one step of one node; a frame
is delivered from the head of a queue, or lost, or — for what has to hold in any order of delivery —
taken again from everything the peer ever sent.  When a process dies the frames in flight on its
connection are gone.

A run is a list of actions; a theorem says which ones it admits.

The model is as concurrent as the program is.  A node has one lock, and its functions hold it from
beginning to end, so each of them is one step.  (The runtime's scan is not a function of a node; it
holds the lock of the database, and not during its walk, and `VeritasSync.Runtime.Scans` takes it
apart.)  What is left open is everything between the steps: which node moves, which of its queues is
served, what the user does meanwhile, which storage operation fails, when a process dies.  All of it
is in the list of actions, so nothing has to be said about schedulers.

Theorems differ in what they allow.  The agreement on rules needs a channel that does not reorder
and forbids replays; clocks and lineage are consistent even if every frame is delivered twice.
Which of these a theorem needs is part of its statement.
-/

set_option autoImplicit false

namespace VeritasSync

variable {H : Type} [ContentHash H]

/-! ## Steps of one node

An event is something that reaches the node from outside.  Calls return or throw to their caller; a
frame is received, which turns an exception into the last error of the node; and a restart forgets
everything that is not on disk. -/

/-- What the runtime, the user interface and the user do to a node. -/
inductive Call (H : Type) where
  | start
  | refreshLocal
  | performScan
  | pump
  | propose (expectedHash : H) (rules : Bytes) (source : PolicySource)
  /-- The user turns the folder into another one; the rule file is not touched. -/
  | edit (folder : Folder)
  /-- After `k` more operations the storage fails. -/
  | fault (k : Nat)

/-- What can happen to a node. -/
inductive Event (H : Type) where
  | call (env : Environment) (c : Call H)
  | receive (env : Environment) (channel : Channel) (frame : Frame H)
  | restart

/-- The call proposes a rule file. -/
def Call.IsPropose : Call H → Prop
  | .propose _ _ _ => True
  | _ => False

/-- The event is the call that proposes a rule file. -/
def Event.IsPropose : Event H → Prop
  | .call _ c => c.IsPropose
  | _ => False

namespace Node

/-- The folder as the user leaves it. -/
def edit (n : Node H) (folder : Folder) : Node H :=
  { n with folder := { folder with rules := n.folder.rules } }

/-- A call; an exception goes to the caller. -/
def call (n : Node H) : Call H → Node H
  | .start => (start n).2
  | .refreshLocal => (refreshLocal n).2
  | .performScan => (performScan n).2
  | .pump => (pump n).2
  | .propose expectedHash rules source => (proposeIgnorePolicy expectedHash rules source n).2
  | .edit folder => n.edit folder
  | .fault k => { n with faultAfter := some k }

/-- The node after an event. -/
def perform (n : Node H) : Event H → Node H
  | .call env c => { n with env := env }.call c
  | .receive env channel frame => (receive channel frame { n with env := env }).2
  | .restart => n.restart

end Node

/-! ## The world -/

/-- One of the two peers. -/
inductive Side where
  | a
  | b
  deriving DecidableEq, Repr

/-- The other peer. -/
def Side.other : Side → Side
  | .a => .b
  | .b => .a

@[simp] theorem Side.other_other (s : Side) : s.other.other = s := by cases s <;> rfl

@[simp] theorem Side.other_ne (s : Side) : s.other ≠ s := by cases s <;> nofun

theorem Side.eq_or_eq_other (s t : Side) : t = s ∨ t = s.other := by
  cases s <;> cases t <;> simp [Side.other]

/-- Two nodes and what is in flight between them. -/
structure World (H : Type) where
  node : Side → Node H
  /-- The frames on their way to a side, oldest first. -/
  queue : Side → Channel → List (Frame H)
  /-- Every frame a side has ever sent, oldest first. -/
  sent : Side → List (Frame H)

/-- A step of the world. -/
inductive Action (H : Type) where
  | call (side : Side) (env : Environment) (c : Call H)
  /-- The oldest frame of a queue reaches its destination. -/
  | deliver (side : Side) (env : Environment) (channel : Channel)
  /-- The oldest frame of a queue is lost. -/
  | lose (side : Side) (channel : Channel)
  /-- A frame the peer sent at some time reaches a side. -/
  | replay (side : Side) (env : Environment) (index : Nat)
  /-- The process of a side dies and is started again. -/
  | restart (side : Side)

/-- The action delivers a frame out of order or a second time. -/
def Action.IsReplay : Action H → Prop
  | .replay _ _ _ => True
  | _ => False

namespace World

/-- A node after its step; what it sent joins the queues. -/
def settle (w : World H) (side : Side) (n : Node H) : World H where
  node s := if s = side then { n with out := [] } else w.node s
  queue s channel :=
    if s = side.other then w.queue s channel ++ n.out.filter fun f => f.channel = channel
    else w.queue s channel
  sent s := if s = side then w.sent s ++ n.out else w.sent s

/-- Remove the oldest frame of a queue. -/
def dropHead (w : World H) (side : Side) (channel : Channel) : World H :=
  { w with
    queue := fun s c =>
      if s = side ∧ c = channel then (w.queue s c).tail else w.queue s c }

/-- An event at one side. -/
def perform (w : World H) (side : Side) (e : Event H) : World H :=
  w.settle side ((w.node side).perform e)

/-- The world after an action.  One that is not possible changes nothing. -/
def step (w : World H) : Action H → World H
  | .call side env c => w.perform side (.call env c)
  | .deliver side env channel =>
    match w.queue side channel with
    | [] => w
    | frame :: _ => (w.dropHead side channel).perform side (.receive env channel frame)
  | .lose side channel => w.dropHead side channel
  | .replay side env index =>
    match (w.sent side.other)[index]? with
    | none => w
    | some frame => w.perform side (.receive env frame.channel frame)
  | .restart side => { w.perform side .restart with queue := fun _ _ => [] }

/-- The world after a run. -/
abbrev run (w : World H) (actions : List (Action H)) : World H := Run.run step w actions

omit [ContentHash H]

@[simp] theorem settle_node_self (w : World H) (side : Side) (n : Node H) :
    (w.settle side n).node side = { n with out := [] } := if_pos rfl

@[simp] theorem settle_node_other (w : World H) (side : Side) (n : Node H) :
    (w.settle side n).node side.other = w.node side.other := if_neg (Side.other_ne side)

end World

/-! ## New worlds

Where runs begin: two nodes of a task that has never run, over folders in which there may be
anything.  The sample nodes are for witnesses.  They hash a byte string to itself, so that a run on
them can be evaluated. -/

/-- A node of a task that has never run, over a folder that may already hold files. -/
def Node.create (config : Config) (env : Environment) (uuid : Nat → Bytes)
    (transferId : Nat → TransferId) (folder : Folder) : Node H where
  config := config
  env := env
  uuid := uuid
  uuidsUsed := 0
  transferId := transferId
  transferIdsUsed := 0
  faultAfter := none
  db := .empty
  folder := folder
  started := false
  receivedHello := false
  receivedManifest := false
  policyReady := false
  policyHash := none
  nextPolicyRetry := 0
  manifestRevision := 0
  sourceFiles := []
  uploads := []
  downloads := []
  lastError := none
  out := []
  trace := ⟨[], [], none, none, false⟩

/-- Two nodes between which nothing has been sent. -/
def World.create (a b : Node H) : World H where
  node
    | .a => a
    | .b => b
  queue _ _ := []
  sent _ := []

/-- Byte strings are their own collision-free hash. -/
instance : ContentHash Bytes where
  blake3 := id

/-- A name for each of two sample devices. -/
def Side.deviceId : Side → DeviceId
  | .a => ascii "a"
  | .b => ascii "b"

/-- The configuration of a sample device. -/
def Side.config (s : Side) : Config where
  taskId := ascii "t"
  deviceId := s.deviceId
  peerDeviceId := s.other.deviceId
  deviceFingerprint := s.deviceId
  peerDeviceFingerprint := s.other.deviceId
  authorizationDigest := ascii "k"
  taskId_ne := by decide +kernel
  deviceId_ne := by cases s <;> decide +kernel
  peerDeviceId_ne := by cases s <;> decide +kernel
  deviceFingerprint_ne := by cases s <;> decide +kernel
  peerDeviceFingerprint_ne := by cases s <;> decide +kernel
  authorizationDigest_ne := by decide +kernel

/-- What a sample machine reports. -/
def sampleEnvironment : Environment := ⟨⟨1, Int.one_pos⟩, 0, fun _ => 0, 0⟩

/-- A sample node over a folder. -/
def Side.sample (s : Side) (folder : Folder) : Node Bytes :=
  .create s.config sampleEnvironment (fun i => s.deviceId ++ List.replicate i '0'.toUInt8)
    (fun i => i + 1) folder

/-- Two sample peers that have not been started. -/
def sampleWorld (a b : Folder) : World Bytes := .create (Side.a.sample a) (Side.b.sample b)

/-- A folder with the empty file `f`. -/
def fileFolder : Folder := .plain (OrdMap.empty.insert (ascii "f") (.file []))
    (by decide +kernel) []

/-- A folder with a file of one byte. -/
def byteFolder : Folder :=
  .plain (OrdMap.empty.insert (ascii "f") (.file [7])) (by decide +kernel) []

/-- Both sample peers start, exchange HELLO and POLICY_HELLO, and apply each other's manifest. -/
def connect : List (Action Bytes) :=
  [.call .a sampleEnvironment .start, .call .b sampleEnvironment .start,
    .deliver .b sampleEnvironment .control, .deliver .a sampleEnvironment .control,
    .deliver .a sampleEnvironment .control, .deliver .a sampleEnvironment .control,
    .deliver .b sampleEnvironment .control, .deliver .b sampleEnvironment .control,
    .deliver .b sampleEnvironment .control, .deliver .a sampleEnvironment .control]

end VeritasSync
