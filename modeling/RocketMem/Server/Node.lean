import RocketMem.Engine.Snapshot
import RocketMem.Framework.RelyGuarantee
import RocketMem.Server.Files
import RocketMem.Server.Grouping
import RocketMem.Server.Replication

namespace RocketMem

open Function

/-- An I/O error: how far the operation got before it failed, and the error's text. -/
structure Fault where
  reached : Nat
  message : Bytes

abbrev IoResult (α : Type) := Except Bytes α

section

variable (F : Type) [F64 F]

abbrev SnapshotEntry := Bytes × Value F × Option Nat

/-- Bookkeeping that does nothing to the server: a snapshot's walk over the shards is complete, a
follower begins to load its leader's snapshot or to apply a command, or has made another step. -/
inductive Note where
  | captured (env : Env) (entries : List (SnapshotEntry F))
  | loading
  | applying (env : Env) (frame : Frame)
  | stepped

/-- What threads do to the state they share, one indivisible access each. `append` to `aofLen` are
messages of the AOF writer thread, which handles them one at a time; dropping a vector of guards is
`unlockShards`. -/
inductive ServerOp where
  | engine (env : Env) (o : EngineOp F)
  | shardEntries (env : Env) (j : Fin shardCount)
  | clearShard (j : Fin shardCount)
  | lockShard (j : Fin shardCount)
  | unlockShards
  | lockRewrite
  | unlockRewrite
  | append (frame : Frame)
  | flush
  | rotate (path : Path)
  | aofLen
  | fanout (o : FanoutOp)
  | broadcast (frame : Frame)
  | follow (o : FollowerOp)
  | readFile (path : Path)
  | create (path : Path)
  | write (path : Path) (bytes : Bytes)
  | sync (path : Path)
  | rename (source target : Path)
  | syncDir (path : Path)
  | remove (path : Path)
  | note (n : Note F)

/-- What has been noted: whether a leader's snapshot is being loaded, the store after every step,
and the entries of the snapshots taken. -/
structure Steps where
  loading : Bool
  moments : List (Store F)
  captures : List (Env × List (SnapshotEntry F))

/-- A running server: the store, who holds which ordering guard and the rewrite lock, the files
and the one the AOF writer appends to, its replicas and its leader.

The rest is history. `log` is every frame handed to the AOF writer and who handed it over, `sent`
every frame handed to the replicas. The AOF file that the manifest names starts with frame `base` of
the log and the one being written with frame `mark`; the first `synced` frames have been fsynced. -/
structure Node where
  store : Store F
  guards : Fin shardCount → Option Nat
  rewriting : Option Nat
  disk : Disk
  aofPath : Path
  fanout : Fanout
  follower : Follower
  log : List (Nat × Frame)
  sent : List Frame
  base : Nat
  mark : Nat
  synced : Nat
  steps : Steps F

end

variable {F : Type} [F64 F]

@[reducible] def ServerOp.Ret : ServerOp F → Type
  | engine _ o => o.Ret
  | shardEntries _ _ => List (SnapshotEntry F)
  | clearShard _ | lockShard _ | unlockShards | lockRewrite | unlockRewrite | broadcast _
  | remove _ | note _ => Unit
  | fanout o => o.Ret
  | follow o => o.Ret
  | aofLen => IoResult Nat
  | readFile _ => IoResult (Option Bytes)
  | append _ | flush | rotate _ | create _ | write _ _ | sync _ | rename _ _ | syncDir _ =>
    IoResult Unit

def fileTooLarge : Bytes := txt "File too large (os error 27)"

def noSuchFile : Bytes := txt "No such file or directory (os error 2)"

namespace Node

def new (cfg : Settings) : Node F where
  store := .new
  guards _ := none
  rewriting := none
  disk := update (fun _ => none) (cfg.aofFile 0) (some .empty)
  aofPath := cfg.aofFile 0
  fanout := .new
  follower := .new
  log := []
  sent := []
  base := 0
  mark := 0
  synced := 0
  steps := ⟨false, [.new], []⟩

def frames (s : Node F) : List Frame := s.log.map Prod.snd

def takeShard (i : Nat) (j : Fin shardCount) (s : Node F) : Node F :=
  { s with guards := update s.guards j (some i) }

def releaseShards (i : Nat) (s : Node F) : Node F :=
  { s with guards := fun j => if s.guards j = some i then none else s.guards j }

def releaseRewrite (i : Nat) (s : Node F) : Node F :=
  { s with rewriting := if s.rewriting = some i then none else s.rewriting }

def setFile (s : Node F) (path : Path) (f : Option File) : Node F :=
  { s with disk := update s.disk path f }

/-- `AofMsg::Append`. A file that has lost its name still takes writes. -/
def append (i : Nat) (x : Option Fault) (frame : Frame) (s : Node F) : IoResult Unit × Node F :=
  let bytes := encode .resp2 frame
  let logged := { s with log := s.log ++ [(i, frame)] }
  match x, s.disk s.aofPath with
  | some fault, some f =>
    (.error fault.message,
      logged.setFile s.aofPath (some ((f.append (bytes.take fault.reached)).getD f)))
  | some fault, none => (.error fault.message, logged)
  | none, none => (.ok (), logged)
  | none, some f =>
    match f.append bytes with
    | some f' => (.ok (), logged.setFile s.aofPath (some f'))
    | none => (.error fileTooLarge, logged)

/-- The flush and fsync that `AofMsg::Flush` and `AofMsg::Rotate` begin with. -/
def flushed (s : Node F) : Node F :=
  { s.setFile s.aofPath ((s.disk s.aofPath).map File.sync) with synced := s.log.length }

/-- `OpenOptions::new().create(true).append(true).open(path)`. -/
def openAof (path : Path) (s : Node F) : Node F :=
  { s.setFile path (some ((s.disk path).getD .empty)) with aofPath := path, mark := s.log.length }

def rotate (x : Option Fault) (path : Path) (s : Node F) : IoResult Unit × Node F :=
  match x with
  | some fault => (.error fault.message, if fault.reached = 0 then s else s.flushed)
  | none => (.ok (), s.flushed.openAof path)

def write (x : Option Fault) (path : Path) (bytes : Bytes) (s : Node F) : IoResult Unit × Node F :=
  match x, s.disk path with
  | some fault, some f =>
    (.error fault.message, s.setFile path (some ((f.append (bytes.take fault.reached)).getD f)))
  | some fault, none => (.error fault.message, s)
  | none, none => (.ok (), s)
  | none, some f =>
    match f.append bytes with
    | some f' => (.ok (), s.setFile path (some f'))
    | none => (.error fileTooLarge, s)

/-- `std::fs::rename`. Once it names another AOF, the manifest's history starts where that file
does. -/
def rename (cfg : Settings) (source target : Path) (s : Node F) : IoResult Unit × Node F :=
  match s.disk source with
  | none => (.error noSuchFile, s)
  | some f =>
    (.ok (), { s with
      disk := update (update s.disk source none) target (some f)
      base := if target = cfg.manifest then s.mark else s.base })

def note (s : Node F) : Note F → Node F
  | .captured env entries =>
    { s with steps := { s.steps with captures := s.steps.captures ++ [(env, entries)] } }
  | .loading => { s with steps := { s.steps with loading := true } }
  | .applying _ _ => s
  | .stepped =>
    { s with steps := { s.steps with loading := false, moments := s.steps.moments ++ [s.store] } }

end Node

/-- One operation of thread `i`; `x` is the error it runs into, if any. A lock that is taken makes
the thread wait. -/
def ServerOp.exec (cfg : Settings) (i : Nat) (x : Option Fault) :
    (o : ServerOp F) → Node F → Option (o.Ret × Node F)
  | engine env o, s => some ((o.exec env s.store).1, { s with store := (o.exec env s.store).2 })
  | shardEntries env j, s => some ((s.store.shards j).entries env, s)
  | clearShard j, s => some ((), { s with store := s.store.clearShard j })
  | lockShard j, s =>
    match s.guards j with
    | none => some ((), s.takeShard i j)
    | some _ => none
  | unlockShards, s => some ((), s.releaseShards i)
  | lockRewrite, s =>
    match s.rewriting with
    | none => some ((), { s with rewriting := some i })
    | some _ => none
  | unlockRewrite, s => some ((), s.releaseRewrite i)
  | append frame, s => some (s.append i x frame)
  | flush, s =>
    match x with
    | some fault => some (.error fault.message, s)
    | none => some (.ok (), s.flushed)
  | rotate path, s => some (s.rotate x path)
  | aofLen, s =>
    match x, s.disk s.aofPath with
    | some fault, _ => some (.error fault.message, s)
    | none, none => some (.error noSuchFile, s)
    | none, some f => some (.ok f.content.length, s)
  | fanout o, s => some ((o.exec i s.fanout).1, { s with fanout := (o.exec i s.fanout).2 })
  | broadcast frame, s =>
    some ((), { s with sent := s.sent ++ [frame], fanout := s.fanout.broadcast i frame })
  | follow o, s => (o.exec i s.follower).map fun r => (r.1, { s with follower := r.2 })
  | readFile path, s =>
    match x with
    | some fault => some (.error fault.message, s)
    | none => some (.ok (s.disk.read path), s)
  | create path, s =>
    match x with
    | some fault => some (.error fault.message, s)
    | none => some (.ok (), s.setFile path (some .empty))
  | write path bytes, s => some (s.write x path bytes)
  | sync path, s =>
    match x with
    | some fault => some (.error fault.message, s)
    | none => some (.ok (), s.setFile path ((s.disk path).map File.sync))
  | rename source target, s =>
    match x with
    | some fault => some (.error fault.message, s)
    | none => some (s.rename cfg source target)
  | syncDir _, s =>
    match x with
    | some fault => some (.error fault.message, s)
    | none => some (.ok (), s)
  | remove path, s =>
    match x with
    | some _ => some ((), s)
    | none => some ((), s.setFile path none)
  | note n, s => some ((), s.note n)

/-- The server as a machine: a panic drops the guards the thread holds. -/
def server (F : Type) [F64 F] (cfg : Settings) :
    Machine (ServerOp F) ServerOp.Ret (Option Fault) (Node F) where
  exec := ServerOp.exec cfg
  unwind i s := { (s.releaseShards i).releaseRewrite i with follower := s.follower.drop i }

abbrev ServerProgram (F : Type) [F64 F] (α : Type) := Program (ServerOp F) ServerOp.Ret α

abbrev ServerConfig (F : Type) [F64 F] := Config (ServerOp F) ServerOp.Ret Frame (Node F)

def perform (o : ServerOp F) : ServerProgram F o.Ret := Program.perform o

def liftEngine (env : Env) {α : Type} : EngineProgram F α → ServerProgram F α
  | .ret a => .ret a
  | .halt => .halt
  | .call o k => .call (.engine env o) fun r => liftEngine env (k r)

/-- `lock_shards`: ascending, each shard once. -/
def lockShards (shards : List (Fin shardCount)) : ServerProgram F Unit :=
  (shards.toFinset.sort (· ≤ ·)).forM fun j => perform (.lockShard j)

def lockAllShards : ServerProgram F Unit := lockShards (List.finRange shardCount)

def lockKeys (keys : List Bytes) : ServerProgram F Unit :=
  if keys.isEmpty then lockAllShards else lockShards (keys.map shardIndex)

def unlockShards : ServerProgram F Unit := perform .unlockShards

def attempt {α β : Type} (p : ServerProgram F (IoResult α))
    (f : α → ServerProgram F (IoResult β)) : ServerProgram F (IoResult β) :=
  p >>= fun
    | .error e => return .error e
    | .ok a => f a

section

variable (cfg : Settings)

/-- `append_encoded`: only `Always` waits for the writer and hears of its errors. -/
def appendEncoded (frame : Frame) : ServerProgram F (IoResult Unit) := do
  let written ← perform (.append frame)
  if cfg.policy = .always then
    match written with
    | .error e => return .error e
    | .ok () => perform .flush
  else return .ok ()

def appendAll : List Frame → ServerProgram F Bool
  | [] => return false
  | frame :: frames => do
    let result ← appendEncoded cfg frame
    let failed ← appendAll frames
    return result.toBool.not || failed

/-- The offset moves on by the bytes of a frame, then the frame is fanned out. -/
def replicate (frame : Frame) : ServerProgram F Unit := do
  perform (.fanout (.advanceMasterReplOffset (encode .resp2 frame).length))
  perform (.broadcast frame)

def replicateAll (frames : List Frame) : ServerProgram F Unit := frames.forM replicate

def aofFailedReply : Frame := .error (txt "ERR failed to write to the append only file")

/-- The part of `dispatch_and_log_gated` that runs under the ordering guards: mutate, log, fan
out. With the reply comes whether an append failed. -/
def mutateAndLog (env : Env) (frame : Frame) : ServerProgram F (Frame × Bool) := do
  let reply ← liftEngine env (dispatch env frame)
  let frames := toLog env.clock frame reply
  let failed ← appendAll cfg frames
  replicateAll frames
  return (reply, failed)

def replyOrFailure (r : Frame × Bool) : Frame :=
  if r.2 && decide (cfg.policy = .always) then aofFailedReply else r.1

end

section

variable (cfg : Settings)

def readGeneration : ServerProgram F (IoResult UInt64) := do
  match ← perform (.readFile cfg.manifest) with
  | .error e => return .error e
  | .ok contents => return generationOf contents

/-- `write_snapshot_atomically` and `write_generation_atomically`. -/
def writeAtomically (path : Path) (bytes : Bytes) : ServerProgram F (IoResult Unit) :=
  attempt (perform (.create (tmpPath path))) fun _ =>
  attempt (perform (.write (tmpPath path) bytes)) fun _ =>
  attempt (perform (.sync (tmpPath path))) fun _ =>
  attempt (perform (.rename (tmpPath path) path)) fun _ =>
  perform (.syncDir path)

/-- `snapshot_entries`: one shard after another. -/
def snapshotEntries (env : Env) : List (Fin shardCount) → ServerProgram F (List (SnapshotEntry F))
  | [] => return []
  | j :: js => do
    let entries ← perform (.shardEntries env j)
    let rest ← snapshotEntries env js
    return entries ++ rest

/-- `Engine::snapshot`. A vector cannot grow beyond `isize::MAX` bytes. -/
def takeSnapshot (env : Env) (offset : Nat) : ServerProgram F Bytes := do
  let entries ← snapshotEntries env (List.finRange shardCount)
  perform (.note (.captured env entries))
  let bytes := serializeEntries env offset entries
  if (bytes.length : Int) ≤ i64Max then return bytes else .halt

def currentOffset : ServerProgram F (IoResult Nat) :=
  attempt (perform .flush) fun _ => perform .aofLen

/-- The next generation's number wraps as release builds wrap it. -/
def startRewrite (env : Env) : ServerProgram F (IoResult (UInt64 × Bytes)) := do
  lockAllShards
  let started ← attempt (readGeneration cfg) fun gen => do
    let bytes ← takeSnapshot env 0
    attempt (perform (.rotate (cfg.aofFile (gen + 1)))) fun _ => return .ok (gen + 1, bytes)
  unlockShards
  return started

def errorReply (what : String) (e : Bytes) : Frame := .error (txt what ++ e)

def rewriteAof (env : Env) : ServerProgram F Frame := do
  match ← startRewrite cfg env with
  | .error e => return errorReply "ERR failed to start AOF rewrite: " e
  | .ok (next, bytes) =>
    match ← writeAtomically (cfg.snapshotFile next) bytes with
    | .error e => return errorReply "ERR failed to write rewritten snapshot: " e
    | .ok () =>
      match ← writeAtomically cfg.manifest (showNat next.toNat) with
      | .error e => return errorReply "ERR failed to commit AOF rewrite: " e
      | .ok () =>
        perform (.remove (cfg.aofFile (next - 1)))
        perform (.remove (cfg.snapshotFile (next - 1)))
        return okReply

def handleBgrewriteaof (env : Env) : ServerProgram F Frame := do
  perform .lockRewrite
  let reply ← rewriteAof cfg env
  perform .unlockRewrite
  return reply

/-- The snapshot of a SAVE and the AOF offset it stands for, under all ordering guards. -/
def saveImage (env : Env) : ServerProgram F (IoResult Bytes) := do
  lockAllShards
  let image ← attempt currentOffset fun offset => Except.ok <$> takeSnapshot env offset
  unlockShards
  return image

def saveSnapshot (env : Env) : ServerProgram F Frame := do
  match ← readGeneration cfg with
  | .error e => return errorReply "ERR failed to read AOF generation: " e
  | .ok gen =>
    match ← saveImage env with
    | .error e => return errorReply "ERR failed to read AOF offset: " e
    | .ok bytes =>
      match ← writeAtomically (cfg.snapshotFile gen) bytes with
      | .error e => return errorReply "ERR failed to write snapshot: " e
      | .ok () => return okReply

def handleSave (env : Env) : ServerProgram F Frame := do
  perform .lockRewrite
  let reply ← saveSnapshot cfg env
  perform .unlockRewrite
  return reply

end

variable (cfg : Settings)

/-- A command as it comes to the gated path, with the clock it reads. `answered` is the reply of a
gate or of a handler that concerns neither the store nor the log nor the replicas, when there is one
that takes the frame. -/
structure Command where
  env : Env
  frame : Frame
  answered : Option Frame

/-- `is_save_command` and `is_bgrewriteaof_command`. -/
def isNamed (name : String) : Frame → Bool
  | .array (.bulk raw :: _) => asciiUpper raw = txt name
  | _ => false

def runPublish (frame : Frame) : ServerProgram F Frame :=
  match frame with
  | .array (_ :: .bulk channel :: .bulk message :: _) => do
    let delivered ← perform (.fanout (.publish channel message))
    replicate frame
    return .integer delivered
  | _ => return .error (txt "ERR wrong number of arguments for 'publish' command")

def runWrite (takeOwnGuard : Bool) (env : Env) (frame : Frame) : ServerProgram F Frame := do
  if takeOwnGuard then lockKeys (commandKeys frame)
  let r ← mutateAndLog cfg env frame
  if takeOwnGuard then unlockShards
  return replyOrFailure cfg r

/-- `dispatch_and_log_gated`: below the gates, where `EXEC` runs its queue. -/
def dispatchAndLogGated (takeOwnGuard : Bool) (c : Command) : ServerProgram F Frame :=
  match c.answered with
  | some reply => return reply
  | none =>
    if isNamed "SAVE" c.frame then handleSave cfg c.env
    else if isNamed "BGREWRITEAOF" c.frame then handleBgrewriteaof cfg c.env
    else if isNamed "PUBLISH" c.frame then runPublish c.frame
    else if (extractWriteCommandName c.frame).isSome then runWrite cfg takeOwnGuard c.env c.frame
    else liftEngine c.env (dispatch c.env c.frame)

def appendTransactionMarker (mk : Marker) : ServerProgram F Unit := do
  let _ ← appendEncoded cfg (markerFrame mk)
  replicate (markerFrame mk)

def runQueued : List Command → ServerProgram F (List Frame)
  | [] => return []
  | c :: queued => do
    let reply ← dispatchAndLogGated cfg false c
    let replies ← runQueued queued
    return reply :: replies

/-- The commands of a batch between its markers, which a batch without a write goes without. -/
def runBatch (queued : List Command) : ServerProgram F (List Frame) :=
  if queued.any fun c => (extractWriteCommandName c.frame).isSome then do
    appendTransactionMarker cfg .multi
    let replies ← runQueued cfg queued
    appendTransactionMarker cfg .exec
    return replies
  else runQueued cfg queued

def handleExec (queued : List Command) : ServerProgram F Frame := do
  lockKeys (queued.flatMap fun c => commandKeys c.frame)
  let replies ← runBatch cfg queued
  unlockShards
  return .array replies

/-- The handoff section of `serve_replica`: the offset, the snapshot and the registration under all
ordering guards. -/
def serveReplicaHandoff (env : Env) : ServerProgram F Frame := do
  lockAllShards
  let offset ← perform (.fanout .masterReplOffset)
  let blob ← takeSnapshot env offset.toNat
  perform (.fanout (.register blob))
  unlockShards
  return .null

/-- What the server is asked to do: a command outside MULTI, the EXEC of a queue, the handoff to a
replica, or the fsync that the periodic loop asks for. -/
inductive Request where
  | single (c : Command)
  | exec (queued : List Command)
  | psync (env : Env)
  | fsync

def Request.program : Request → ServerProgram F Frame
  | single c => dispatchAndLogGated cfg true c
  | exec queued => handleExec cfg queued
  | psync env => serveReplicaHandoff env
  | fsync => do
    let _ ← perform .flush
    return .null

def serving (node : Node F) (requests : Nat → Option Request) : ServerConfig F :=
  ⟨node, fun i => (requests i).map (Request.program cfg)⟩

end RocketMem
