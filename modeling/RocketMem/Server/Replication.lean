import RocketMem.Server.PubSub

namespace RocketMem

open Function

/-- A replica that has been registered: the snapshot it was handed, and what has been put into its
channel since. -/
structure Link where
  blob : Bytes
  channel : List Frame

/-- What a leader keeps for its replicas and subscribers. `outstanding` is history: how far threads
have moved the offset on for frames they have not fanned out yet. `attaching` is history, too: the
offset that a handoff has read and not yet registered a replica for. -/
structure Fanout where
  masterOffset : UInt64
  links : Nat → Option Link
  pubsub : PubSubRegistry
  receiving : Nat → Bool
  outstanding : List (Nat × Nat)
  attaching : Nat → Option UInt64

def Fanout.new : Fanout where
  masterOffset := 0
  links _ := none
  pubsub := .empty
  receiving _ := false
  outstanding := []
  attaching _ := none

inductive FanoutOp where
  | masterReplOffset
  | advanceMasterReplOffset (n : Nat)
  | register (blob : Bytes)
  | publish (channel message : Bytes)

@[reducible] def FanoutOp.Ret : FanoutOp → Type
  | masterReplOffset => UInt64
  | advanceMasterReplOffset _ | register _ => Unit
  | publish _ _ => Nat

def FanoutOp.exec (i : Nat) : (o : FanoutOp) → Fanout → o.Ret × Fanout
  | masterReplOffset, f =>
    (f.masterOffset, { f with attaching := update f.attaching i (some f.masterOffset) })
  | advanceMasterReplOffset n, f =>
    ((), { f with
      masterOffset := f.masterOffset + UInt64.ofNat n
      outstanding := f.outstanding ++ [(i, n)] })
  | register blob, f =>
    ((), { f with
      links := update f.links i (some ⟨blob, []⟩)
      attaching := update f.attaching i none })
  | publish channel message, f =>
    let p := f.pubsub.publish f.receiving channel message
    (p.delivered, { f with pubsub := p.registry })

/-- `ReplicaRegistry::broadcast`, for replicas that are still there. -/
def Fanout.broadcast (i : Nat) (frame : Frame) (f : Fanout) : Fanout :=
  { f with
    links := fun l => (f.links l).map fun link => { link with channel := link.channel ++ [frame] }
    outstanding := f.outstanding.erase (i, (encode .resp2 frame).length) }

/-- What a follower keeps about its link to the leader. A task is spawned for a generation; `task`
is the one that can still be aborted. `order` and `superseded` are history: the how-many-th spawn a
task comes from, and the number of spawns before the last call that has returned. `running` is
history as well: the tasks that are between two awaits. -/
structure Follower where
  generation : UInt64
  taskLock : Option Nat
  task : Option Nat
  spawned : Nat → Option UInt64
  aborted : Nat → Bool
  isReplica : Bool
  linkUp : Bool
  slaveOffset : UInt64
  running : Nat → Bool
  spawns : Nat
  order : Nat → Nat
  superseded : Nat

def Follower.new : Follower where
  generation := 0
  taskLock := none
  task := none
  spawned _ := none
  aborted _ := false
  isReplica := false
  linkUp := false
  slaveOffset := 0
  running _ := false
  spawns := 0
  order _ := 0
  superseded := 0

inductive FollowerOp where
  | loadGeneration
  | nextGeneration
  | lockTask
  | unlockTask
  | abortTask
  | spawn (t : Nat) (gen : UInt64)
  | poll
  | suspend
  | resume
  | storeReplica (b : Bool)
  | storeLinkUp (b : Bool)
  | storeSlaveOffset (n : UInt64)
  | addSlaveOffset (n : Nat)
  | returned (spawns : Nat)

@[reducible] def FollowerOp.Ret : FollowerOp → Type
  | loadGeneration => UInt64
  | nextGeneration => UInt64 × Nat
  | poll => Option UInt64
  | resume => Bool
  | _ => Unit

def FollowerOp.exec (i : Nat) : (o : FollowerOp) → Follower → Option (o.Ret × Follower)
  | loadGeneration, f => some (f.generation, f)
  | nextGeneration, f =>
    some ((f.generation + 1, f.spawns), { f with generation := f.generation + 1 })
  | lockTask, f =>
    match f.taskLock with
    | none => some ((), { f with taskLock := some i })
    | some _ => none
  | unlockTask, f => some ((), { f with taskLock := none })
  | abortTask, f =>
    match f.task with
    | none => some ((), f)
    | some t => some ((), { f with task := none, aborted := update f.aborted t true })
  | spawn t gen, f =>
    some ((), { f with
      task := some t
      spawned := update f.spawned t (some gen)
      order := update f.order t f.spawns
      spawns := f.spawns + 1 })
  | poll, f =>
    -- a task is polled for the first time once it has been spawned; a cancelled one never runs
    match f.spawned i with
    | none => none
    | some gen =>
      if f.aborted i then some (none, f)
      else some (some gen, { f with running := update f.running i true })
  | suspend, f => some ((), { f with running := update f.running i false })
  | resume, f =>
    if f.aborted i then some (true, f)
    else some (false, { f with running := update f.running i true })
  | storeReplica b, f => some ((), { f with isReplica := b })
  | storeLinkUp b, f => some ((), { f with linkUp := b })
  | storeSlaveOffset n, f => some ((), { f with slaveOffset := n })
  | addSlaveOffset n, f => some ((), { f with slaveOffset := f.slaveOffset + UInt64.ofNat n })
  | returned spawns, f => some ((), { f with superseded := max f.superseded spawns })

/-- A task that is dropped or has panicked runs no more, and gives the lock back. -/
def Follower.drop (i : Nat) (f : Follower) : Follower :=
  { f with
    running := update f.running i false
    taskLock := if f.taskLock = some i then none else f.taskLock }

end RocketMem
