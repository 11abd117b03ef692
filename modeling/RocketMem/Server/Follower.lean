import RocketMem.Server.Handshake
import RocketMem.Server.NodeFrame

namespace RocketMem

variable {F : Type} [F64 F]

/-- An await. One that is not ready gives the thread up, and a task that has been aborted by the
time it is polled again is dropped. -/
def await (ready : Bool) : ServerProgram F Unit :=
  if ready then return ()
  else do
    perform (.follow .suspend)
    if ← perform (.follow .resume) then .halt else return ()

def isStale (mine : UInt64) : ServerProgram F Bool := do
  return (← perform (.follow .loadGeneration)) != mine

def loadOne (env : Env) (e : SnapshotEntry F) : ServerProgram F Unit := do
  perform (.engine env (.key e.1 (.set e.2.1)))
  match e.2.2 with
  | none => return ()
  | some deadline =>
    let _ ← perform (.engine env (.key e.1 (.expireAt deadline)))
    return ()

/-- `load_snapshot_entries`: each shard is cleared, each entry set, on its own. -/
def loadEntries (env : Env) (entries : List (SnapshotEntry F)) : ServerProgram F Unit := do
  (List.finRange shardCount).forM fun j => perform (.clearShard j)
  entries.forM (loadOne env)

/-- `Engine::load_snapshot`: the position in the header, unless the blob cannot be decoded. -/
def loadSnapshot (env : Env) (blob : Bytes) : ServerProgram F (Option Nat) :=
  if blob.length < 8 then return none
  else match (BinCodec.list (entryCodec (F := F))).decode (blob.drop 8) with
    | none => return none
    | some (entries, _) => do
      perform (.note .loading)
      loadEntries env (entries.filterMap (loadEntry env.clock))
      perform (.note .stepped)
      return some (ofLeBytes (blob.take 8))

/-- The UTF-8 texts whose Unicode upper case is each letter of `PUBLISH`: dotless i and long s are
among them. -/
def publishLetters : List (List Bytes) :=
  [[[80], [112]], [[85], [117]], [[66], [98]], [[76], [108]], [[73], [105], [0xC4, 0xB1]],
    [[83], [115], [0xC5, 0xBF]], [[72], [104]]]

def spelled : List (List Bytes) → Bytes → Bool
  | [], name => name.isEmpty
  | letter :: letters, name =>
    letter.any fun l => l.isPrefixOf name && spelled letters (name.drop l.length)

/-- Whether `replicated_command_name` is `PUBLISH`. -/
def isReplicatedPublish : Frame → Bool
  | .array (.bulk name :: _) => spelled publishLetters name
  | _ => false

def applyReplicated (env : Env) (frame : Frame) : ServerProgram F Unit :=
  if isReplicatedPublish frame then
    match frame with
    | .array (_ :: .bulk channel :: .bulk message :: _) => do
      let _ ← perform (.fanout (.publish channel message))
      return ()
    | _ => return ()
  else do
    lockAllShards
    perform (.note (.applying env frame))
    let _ ← liftEngine env (dispatch env frame)
    perform (.note .stepped)
    unlockShards

/-- What the grouper releases for a frame; malformed framing is only logged. -/
def TransactionGrouper.feedOrSkip (g : TransactionGrouper) (frame : Frame) :
    List Frame × TransactionGrouper :=
  match g.feed frame with
  | .ok fed => fed
  | .error _ => ([], g)

structure Turn where
  ready : Bool
  env : Env

/-- How a connection to the leader ends: a newer task has taken over, there was nothing to follow,
or it is lost with these bytes not decoded. -/
inductive SyncEnd where
  | superseded
  | failed
  | lost (rest : Bytes)

/-- The apply loop of `sync_once`, on the bytes that arrive. -/
def followStream (mine : UInt64) :
    List Turn → TransactionGrouper → Bytes → ServerProgram F SyncEnd
  | [], _, stream => return .lost stream
  | turn :: turns, grouper, stream => do
    await turn.ready
    match decode stream with
    | .panic => .halt
    | .incomplete => return .lost stream
    | .invalid _ =>
      if ← isStale mine then return .superseded else return .lost stream
    | .ok frame n =>
      if ← isStale mine then return .superseded
      else do
        (grouper.feedOrSkip frame).1.forM (applyReplicated turn.env)
        perform (.follow (.addSlaveOffset (encode .resp2 frame).length))
        followStream mine turns (grouper.feedOrSkip frame).2 (stream.drop n)

/-- What a leader sends over one connection, and when: the answer to PSYNC, the moment the ack has
been sent, and the stream. -/
structure Attempt where
  connect : Turn
  wire : Bytes
  acked : Bool
  turns : List Turn

/-- `sync_once` from the snapshot on. -/
def followLeader (mine : UInt64) (a : Attempt) (blob stream : Bytes) :
    ServerProgram F SyncEnd := do
  if ← isStale mine then return .superseded
  else match ← loadSnapshot a.connect.env blob with
    | none => return .failed
    | some offset =>
      if ← isStale mine then return .superseded
      else do
        perform (.follow (.storeSlaveOffset (UInt64.ofNat offset)))
        perform (.follow (.storeLinkUp true))
        await a.acked
        followStream mine a.turns .new stream

def connectAndSync (mine : UInt64) (a : Attempt) : ServerProgram F SyncEnd := do
  await a.connect.ready
  match syncOnce a.wire with
  | .synced blob stream => followLeader mine a blob stream
  | .panic => .halt
  | .rejected _ | .waiting => return .failed

def taskDone : ServerProgram F Frame := do
  perform (.follow .suspend)
  return .null

/-- `replication_client_loop`: connect, follow, and again. -/
def replicationClientLoop (mine : UInt64) : List Attempt → ServerProgram F Frame
  | [] => taskDone
  | a :: attempts => do
    if ← isStale mine then taskDone
    else do
      let _ ← connectAndSync mine a
      perform (.follow (.storeLinkUp false))
      await false
      replicationClientLoop mine attempts

/-- The task that `start_replicating` spawns. -/
def replicationTask (attempts : List Attempt) : ServerProgram F Frame := do
  match ← perform (.follow .poll) with
  | none => return .null
  | some mine => replicationClientLoop mine attempts

/-- `start_replicating`, with `t` for the task it spawns. -/
def startReplicating (t : Nat) : ServerProgram F Frame := do
  perform (.follow .lockTask)
  perform (.follow .abortTask)
  let (mine, before) ← perform (.follow .nextGeneration)
  perform (.follow (.spawn t mine))
  perform (.follow (.storeReplica true))
  perform (.follow .unlockTask)
  perform (.follow (.returned before))
  return okReply

def stopReplicating : ServerProgram F Frame := do
  perform (.follow .lockTask)
  perform (.follow .abortTask)
  let (_, before) ← perform (.follow .nextGeneration)
  perform (.follow (.storeReplica false))
  perform (.follow (.storeLinkUp false))
  perform (.follow .unlockTask)
  perform (.follow (.returned before))
  return okReply

variable {ok : ServerOp F → Prop}

theorem await_calls (hsuspend : ok (.follow .suspend)) (hresume : ok (.follow .resume))
    (ready : Bool) : (await ready : ServerProgram F Unit).Calls ok := by
  unfold await
  split
  · exact .ret _
  · refine .bind (.perform hsuspend) fun _ => .bind (.perform hresume) fun dropped => ?_
    cases dropped
    · exact .ret _
    · exact .halt

theorem loadSnapshot_calls (hnote : ∀ n, ok (.note n)) (hclear : ∀ j, ok (.clearShard j))
    (hengine : ∀ env o, ok (.engine env o)) (env : Env) (blob : Bytes) :
    (loadSnapshot env blob : ServerProgram F (Option Nat)).Calls ok := by
  unfold loadSnapshot
  split
  · exact .ret _
  · split
    · exact .ret _
    · refine .bind (.perform (hnote _)) fun _ => .bind (.bind ?_ fun _ => ?_) fun _ =>
        .bind (.perform (hnote _)) fun _ => .ret _
      · exact forM_calls (fun j => .perform (hclear j)) _
      · refine forM_calls (fun e => .bind (.perform (hengine env _)) fun _ => ?_) _
        cases e.2.2 with
        | none => exact .ret _
        | some deadline => exact .bind (.perform (hengine env _)) fun _ => .ret _

theorem applyReplicated_calls (hnote : ∀ n, ok (.note n)) (hengine : ∀ env o, ok (.engine env o))
    (hlock : ∀ j, ok (.lockShard j)) (hunlock : ok .unlockShards)
    (hpublish : ∀ channel message, ok (.fanout (.publish channel message))) (env : Env)
    (frame : Frame) : (applyReplicated env frame : ServerProgram F Unit).Calls ok := by
  unfold applyReplicated
  split
  · split
    · exact .bind (.perform (hpublish _ _)) fun _ => .ret _
    · exact .ret _
  · refine .bind (forM_calls (fun j => .perform (hlock j)) _) fun _ => .bind (.perform (hnote _)) ?_
    refine fun _ => .bind (liftEngine_calls_any (hengine env) _) fun _ => ?_
    exact .bind (.perform (hnote _)) fun _ => .perform hunlock

end RocketMem
