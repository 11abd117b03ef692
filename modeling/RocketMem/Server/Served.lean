import RocketMem.Server.Connection
import RocketMem.Server.Extent
import RocketMem.Server.Handlers

namespace RocketMem

open List

variable (F : Type) [F64 F]

/-- What one call of the gated path meets of the rest of the server. `appendFails` tells whether an
append to the AOF fails under a policy that reports it, `failedSave` and `failedRewrite` at which
step `SAVE` or `BGREWRITEAOF` would fail, and `infoText` writes the report of `INFO`. -/
structure Surroundings where
  env : Env
  argon : Argon2
  clientId : UInt64
  peerAddr : Bytes
  cluster : Option ClusterConfig
  peerHealth : Option (Bytes → Bool)
  isReplica : Bool
  masterReplOffset : UInt64
  minReplicasToWrite : Nat
  goodReplicas : Nat
  policy : FsyncPolicy
  appendFails : Bool
  failedSave : Option (SaveStep × IoError)
  failedRewrite : Option (RewriteStep × IoError)
  slowlog : List SlowLogEntry
  slowlogThreshold : Nat
  infoText : Option Bytes → Store F → Bytes
  lower : Bytes → Bytes
  alive : Nat → Bool
  freshChannel : Nat

/-- The server as one connection's commands work on it: the store, the users, the subscriptions,
and the connection itself with the name it was given. -/
structure Served where
  store : Store F
  acl : AclStore
  pubsub : PubSubRegistry
  session : Session
  clientName : Option Bytes

/-- What a call ended in: its result unless it panicked, the server then, and the keys it
addressed. -/
structure Outcome (α : Type) where
  result : Option α
  after : Served F
  touched : List Bytes

inductive Answer where
  | reply (frame : Frame)
  | handoff

variable {F}

def Outcome.answered (o : Outcome F Frame) : Outcome F Answer :=
  ⟨o.result.map .reply, o.after, o.touched⟩

def readonlyReply : Frame := .error (txt "READONLY You can't write against a read only replica.")

def noReplicasReply : Frame := .error (txt "NOREPLICAS Not enough good replicas to write.")

def psyncRefused : Frame :=
  .error (txt "ERR PSYNC refused: this node is itself a replica; chaining is not supported")

namespace Surroundings

/-- The gates of `dispatch_and_log_gated`: redirection, `READONLY` and fencing. -/
def refuse (x : Surroundings F) (frame : Frame) : Option Frame :=
  match clusterRedirect x.cluster frame with
  | some redirect => some redirect
  | none =>
    let write := (extractWriteCommandName frame).isSome
    if x.isReplica ∧ write then some readonlyReply
    else if 0 < x.minReplicasToWrite ∧ write ∧ x.goodReplicas < x.minReplicasToWrite then
      some noReplicasReply
    else none

def role (x : Surroundings F) : Bytes := if x.isReplica then txt "slave" else txt "master"

def mode (x : Surroundings F) : Bytes :=
  if x.cluster.isSome then txt "cluster" else txt "standalone"

def standalone : Surroundings F where
  env := .plain .zero
  argon := ⟨id, fun hash password => hash = password⟩
  clientId := 1
  peerAddr := txt "127.0.0.1:50000"
  cluster := none
  peerHealth := none
  isReplica := false
  masterReplOffset := 0
  minReplicasToWrite := 0
  goodReplicas := 0
  policy := .always
  appendFails := false
  failedSave := none
  failedRewrite := none
  slowlog := []
  slowlogThreshold := 0
  infoText _ _ := []
  lower := id
  alive _ := true
  freshChannel := 0

end Surroundings

section

theorem CommandName.text_of_ofText {name : Bytes} {c : CommandName}
    (h : CommandName.ofText name = some c) : c.text = name := by
  have hfound := find?_some h
  exact of_decide_eq_true hfound

variable {name : String} {frame : Frame} (hname : commandNameUpper frame ≠ some (txt name))
  (hlen : (txt name).length ≤ maxCommandNameLen) (hascii : isAscii (txt name) = true)

include hname hlen hascii

theorem asciiUpper_ne {raw : Bytes} {args : List Frame} (hframe : frame = .array (.bulk raw :: args)) :
    asciiUpper raw ≠ txt name := by
  subst hframe
  exact fun hraw => hname (upperName_of_asciiUpper hraw hlen hascii)

theorem argsOf_eq_none : argsOf name frame = none := by
  unfold argsOf
  split
  · exact if_neg (asciiUpper_ne hname hlen hascii rfl)
  · rfl

end

namespace Served

def fresh : Served F where
  store := .new
  acl := ⟨∅, false⟩
  pubsub := ⟨∅, ∅⟩
  session := .new
  clientName := none

/-- What stands between a command and `dispatch`, in this order, each with the reply it gives when it
takes the frame. -/
def interceptions (x : Surroundings F) (w : Served F) (frame : Frame) :
    List (Option (Frame × Served F)) := [
  (x.refuse frame).map fun reply => (reply, w),
  (handleAuth x.argon w.acl w.session frame).map fun r => (r.1, { w with session := r.2 }),
  (handleAcl x.argon (describeUsers x.lower x.env.iter) w.acl w.session frame).map fun r =>
    (r.1, { w with acl := r.2 }),
  (argsOf "SAVE" frame).map fun _ => (persistReply SaveStep.text x.failedSave, w),
  (argsOf "BGREWRITEAOF" frame).map fun _ => (persistReply RewriteStep.text x.failedRewrite, w),
  (handleReplicaof frame).map fun reply => (reply, w),
  (handleCluster x.cluster x.peerHealth x.masterReplOffset frame).map fun reply => (reply, w),
  (handleInfo (x.infoText · w.store) frame).map fun reply => (reply, w),
  (handleHello x.argon w.acl w.session x.clientId x.role x.mode frame).map fun r =>
    (r.1, { w with session := r.2 }),
  (handleSlowlog x.slowlog frame).map fun reply => (reply, w),
  (handleConfig (configParameters x.env.maxmemory x.policy x.slowlogThreshold) frame).map
    fun reply => (reply, w),
  (handleClient x.clientId x.peerAddr w.session w.clientName frame).map fun r =>
    (r.1, { w with clientName := r.2 })]

def dispatchLogged (x : Surroundings F) (w : Served F) (frame : Frame) : Outcome F Frame :=
  let command : EngineProgram F Frame := dispatch x.env frame
  let r := runEngine x.env command w.store
  { result := r.1.map fun reply =>
      if x.appendFails ∧ toLog x.env.clock frame reply ≠ [] then aofFailedReply else reply
    after := { w with store := r.2 }
    touched := keysTouched x.env command w.store }

/-- `dispatch_and_log_gated`. A subscription that names nothing changes the session and is then left
to `dispatch`. -/
def dispatchAndLogGated (x : Surroundings F) (w : Served F) (frame : Frame) : Outcome F Frame :=
  match (w.interceptions x frame).findSome? id with
  | some (reply, w) => ⟨some reply, w, []⟩
  | none =>
    let o := interceptForPubsub x.clientId x.alive x.freshChannel w.session w.pubsub frame
    let w := { w with session := o.session, pubsub := o.registry }
    match o.reply with
    | some reply => ⟨some reply, w, []⟩
    | none => w.dispatchLogged x frame

def runQueued : (Nat → Surroundings F) → Served F → List Frame → Outcome F (List Frame)
  | _, w, [] => ⟨some [], w, []⟩
  | xs, w, frame :: frames =>
    let o := w.dispatchAndLogGated (xs 0) frame
    match o.result with
    | none => ⟨none, o.after, o.touched⟩
    | some reply =>
      let rest := runQueued (fun n => xs (n + 1)) o.after frames
      ⟨rest.result.map (reply :: ·), rest.after, o.touched ++ rest.touched⟩

def handleExec (xs : Nat → Surroundings F) (w : Served F) : Outcome F Frame :=
  match takeQueue w.session with
  | (.error e, session) => ⟨some e, { w with session := session }, []⟩
  | (.ok commands, session) =>
    let o := runQueued xs { w with session := session } commands
    ⟨o.result.map .array, o.after, o.touched⟩

def dispatchAndLog (xs : Nat → Surroundings F) (w : Served F) (frame : Frame) : Outcome F Frame :=
  match authGate w.acl w.session frame with
  | some reply => ⟨some reply, w, []⟩
  | none =>
    match subscribeModeGate w.session frame with
    | some reply => ⟨some reply, w, []⟩
    | none =>
      match interceptForTransaction w.session frame with
      | .answered reply session => ⟨some reply, { w with session := session }, []⟩
      | .exec => w.handleExec xs
      | .proceed => w.dispatchAndLogGated (xs 0) frame

/-- A frame that a connection receives, up to one attempt at a blocking command: RMP has no `PSYNC`
and does not block. -/
def receive (xs : Nat → Surroundings F) (w : Served F) (frame : Frame) : Outcome F Answer :=
  let dispatched := (w.dispatchAndLog xs frame).answered
  if w.session.isRmp then dispatched
  else if isPsyncCommand frame then
    match authGate w.acl w.session frame with
    | some reply => ⟨some (.reply reply), w, []⟩
    | none => ⟨some (if (xs 0).isReplica then .reply psyncRefused else .handoff), w, []⟩
  else match blockingTimeout F frame with
    | some (.error e) => ⟨some (.reply e), w, []⟩
    | _ => dispatched

variable {x : Surroundings F} {w : Served F} {frame : Frame} {session : Session}

theorem interceptions_store {reply : Frame} {w' : Served F}
    (h : (w.interceptions x frame).findSome? id = some (reply, w')) : w'.store = w.store := by
  obtain ⟨answer, hmem, hanswer⟩ := exists_of_findSome?_eq_some h
  obtain rfl : answer = some (reply, w') := hanswer
  simp only [interceptions, mem_cons, not_mem_nil, or_false] at hmem
  rcases hmem with h | h | h | h | h | h | h | h | h | h | h | h <;>
    · obtain ⟨_, -, hw⟩ := Option.map_eq_some_iff.mp h.symm
      obtain rfl := congrArg Prod.snd hw
      rfl

theorem refuse_of_interceptions (h : (w.interceptions x frame).findSome? id = none) :
    x.refuse frame = none := by
  have hfirst := findSome?_eq_none_iff.mp h _ mem_cons_self
  exact Option.map_eq_none_iff.mp hfirst

theorem dispatchAndLogGated_cases (x : Surroundings F) (w : Served F) (frame : Frame) :
    (∃ reply w', w.dispatchAndLogGated x frame = ⟨some reply, w', []⟩ ∧ w'.store = w.store) ∨
      x.refuse frame = none ∧ ∃ w' : Served F, w'.store = w.store ∧
        w.dispatchAndLogGated x frame = w'.dispatchLogged x frame := by
  unfold dispatchAndLogGated
  split
  · next reply w' hfound => exact .inl ⟨reply, w', rfl, interceptions_store hfound⟩
  · next hnone =>
    dsimp only
    split
    · exact .inl ⟨_, _, rfl, rfl⟩
    · refine .inr ⟨refuse_of_interceptions hnone, _, ?_, rfl⟩
      rfl

theorem refuse_eq_none (hkeys : commandKeys frame = [])
    (hread : extractWriteCommandName frame = none) : x.refuse frame = none := by
  have hredirect : clusterRedirect x.cluster frame = none := by
    cases x.cluster with
    | none => rfl
    | some c => simp only [clusterRedirect, Option.bind_some, hkeys]
  simp [Surroundings.refuse, hredirect, hread]

def intercepted : List String :=
  ["AUTH", "ACL", "SAVE", "BGREWRITEAOF", "REPLICAOF", "CLUSTER", "INFO", "HELLO", "SLOWLOG",
    "CONFIG", "CLIENT"]

theorem interceptions_eq_none (hrefuse : x.refuse frame = none)
    (hname : ∀ name ∈ intercepted, commandNameUpper frame ≠ some (txt name)) :
    (w.interceptions x frame).findSome? id = none := by
  have hnot (name : String) (h : name ∈ intercepted) := hname name h
  simp only [intercepted, mem_cons, not_mem_nil, or_false, forall_eq_or_imp, forall_eq] at hnot
  obtain ⟨hauth, hacl, hsave, hrewrite, hreplicaof, hcluster, hinfo, hhello, hslowlog, hconfig,
    hclient⟩ := hnot
  have hauth' : handleAuth x.argon w.acl w.session frame = none := by
    unfold handleAuth
    split
    · exact if_pos (asciiUpper_ne hauth (by decide) (by decide) rfl)
    · rfl
  have hacl' : handleAcl x.argon (describeUsers x.lower x.env.iter) w.acl w.session frame = none := by
    unfold handleAcl
    split
    · exact if_pos (asciiUpper_ne hacl (by decide) (by decide) rfl)
    · rfl
  have hcluster' : handleCluster x.cluster x.peerHealth x.masterReplOffset frame = none := by
    unfold handleCluster
    split
    · exact if_pos (asciiUpper_ne hcluster (by decide) (by decide) rfl)
    · rfl
  have hhello' : handleHello x.argon w.acl w.session x.clientId x.role x.mode frame = none := by
    unfold handleHello
    split
    · exact if_pos (asciiUpper_ne hhello (by decide) (by decide) rfl)
    · rfl
  simp only [interceptions, hrefuse, hauth', hacl', hcluster', hhello', handleReplicaof, handleInfo,
    handleSlowlog, handleConfig, handleClient, argsOf_eq_none hsave (by decide) (by decide),
    argsOf_eq_none hrewrite (by decide) (by decide),
    argsOf_eq_none hreplicaof (by decide) (by decide),
    argsOf_eq_none hinfo (by decide) (by decide), argsOf_eq_none hslowlog (by decide) (by decide),
    argsOf_eq_none hconfig (by decide) (by decide), argsOf_eq_none hclient (by decide) (by decide),
    Option.map_none, findSome?_cons, id_eq, findSome?_nil]

theorem interceptForPubsub_unanswered {clientId : UInt64} {alive : Nat → Bool} {fresh : Nat}
    {registry : PubSubRegistry}
    (hname : ∀ name, commandNameUpper frame = some name → name ∉ pubsubCommands) :
    interceptForPubsub clientId alive fresh session registry frame =
      { reply := none, session := session, registry := registry } := by
  unfold interceptForPubsub
  dsimp only
  split
  · next raw args =>
    split
    · rfl
    · next name hupper =>
      have hnot := hname name hupper
      simp only [pubsubCommands, mem_cons, not_mem_nil, or_false, not_or] at hnot
      obtain ⟨hsub, hunsub, hpsub, hpunsub, hpublish, hpubsub⟩ := hnot
      have hmem : name ∉ pubsubCommands := hname name hupper
      simp only [hmem, and_false, if_false, hsub, hunsub, hpsub, hpunsub, hpublish, hpubsub]
  · rfl

theorem dispatchAndLogGated_of_unintercepted (hrefuse : x.refuse frame = none)
    (hname : ∀ name ∈ intercepted, commandNameUpper frame ≠ some (txt name))
    (hpubsub : ∀ name, commandNameUpper frame = some name → name ∉ pubsubCommands) :
    w.dispatchAndLogGated x frame = w.dispatchLogged x frame := by
  simp only [dispatchAndLogGated, interceptions_eq_none hrefuse hname,
    interceptForPubsub_unanswered hpubsub]

def withStore (w : Served F) (st : Store F) : Served F := { w with store := st }

/-- The gates on the session, the users and the subscriptions let the frame pass. -/
def Passes (w : Served F) (frame : Frame) : Prop :=
  authGate w.acl w.session frame = none ∧ subscribeModeGate w.session frame = none

theorem dispatchAndLog_of_answered {reply : Frame} (hpass : w.Passes frame)
    (h : interceptForTransaction w.session frame = .answered reply session)
    (xs : Nat → Surroundings F) :
    w.dispatchAndLog xs frame = ⟨some reply, { w with session := session }, []⟩ := by
  simp only [dispatchAndLog, hpass.1, hpass.2, h]

theorem dispatchAndLog_of_exec (hpass : w.Passes frame)
    (h : interceptForTransaction w.session frame = .exec) (xs : Nat → Surroundings F) :
    w.dispatchAndLog xs frame = w.handleExec xs := by
  simp only [dispatchAndLog, hpass.1, hpass.2, h]

theorem dispatchAndLog_of_proceed (hpass : w.Passes frame)
    (h : interceptForTransaction w.session frame = .proceed) (xs : Nat → Surroundings F) :
    w.dispatchAndLog xs frame = w.dispatchAndLogGated (xs 0) frame := by
  simp only [dispatchAndLog, hpass.1, hpass.2, h]

/-- Whatever the store, a frame is answered by the session alone, or it is the `EXEC` or a command
that passed the session's gates. -/
theorem dispatchAndLog_cases (xs : Nat → Surroundings F) (w : Served F) (frame : Frame) :
    (∃ reply session, ∀ st, (w.withStore st).dispatchAndLog xs frame =
        ⟨some reply, { w.withStore st with session := session }, []⟩) ∨
      w.Passes frame ∧
        (interceptForTransaction w.session frame = .exec ∨
          interceptForTransaction w.session frame = .proceed) := by
  cases hauth : authGate w.acl w.session frame with
  | some reply =>
    refine .inl ⟨reply, w.session, fun st => ?_⟩
    have hauth' : authGate (w.withStore st).acl (w.withStore st).session frame = some reply := hauth
    simp only [dispatchAndLog, hauth']
    rfl
  | none =>
    cases hmode : subscribeModeGate w.session frame with
    | some reply =>
      refine .inl ⟨reply, w.session, fun st => ?_⟩
      have hauth' : authGate (w.withStore st).acl (w.withStore st).session frame = none := hauth
      have hmode' : subscribeModeGate (w.withStore st).session frame = some reply := hmode
      simp only [dispatchAndLog, hauth', hmode']
      rfl
    | none =>
      cases htx : interceptForTransaction w.session frame with
      | answered reply session =>
        exact .inl ⟨reply, session, fun st =>
          dispatchAndLog_of_answered (w := w.withStore st) ⟨hauth, hmode⟩ htx xs⟩
      | exec => exact .inr ⟨⟨hauth, hmode⟩, .inl rfl⟩
      | proceed => exact .inr ⟨⟨hauth, hmode⟩, .inr rfl⟩

theorem interceptForTransaction_exec
    (h : interceptForTransaction session frame = .exec) :
    commandNameUpper frame = some (txt "EXEC") := by
  unfold interceptForTransaction at h
  split at h
  · cases h
  · next name hname =>
    split_ifs at h with hmulti hdiscard hexec
    · exact hname.trans (congrArg some hexec)
    · split at h <;> cases h

theorem interceptForTransaction_proceed
    (hflag : session.inTransaction = false)
    (hname : ∀ name ∈ ["MULTI", "DISCARD", "EXEC"], commandNameUpper frame ≠ some (txt name)) :
    interceptForTransaction session frame = .proceed := by
  simp only [mem_cons, not_mem_nil, or_false, forall_eq_or_imp, forall_eq] at hname
  obtain ⟨hmulti, hdiscard, hexec⟩ := hname
  unfold interceptForTransaction
  split
  · rfl
  · next name hupper =>
    rw [hupper] at hmulti hdiscard hexec
    rw [if_neg fun h => hmulti (congrArg some h), if_neg fun h => hdiscard (congrArg some h),
      if_neg fun h => hexec (congrArg some h), if_pos hflag]

theorem receive_cases (xs : Nat → Surroundings F) (w : Served F) (frame : Frame) :
    (∃ reply, ∀ st, (w.withStore st).receive xs frame =
        ⟨some (.reply reply), w.withStore st, []⟩) ∨
      (isPsyncCommand frame = true ∧ authGate w.acl w.session frame = none ∧
        ∀ st, (w.withStore st).receive xs frame = ⟨some .handoff, w.withStore st, []⟩) ∨
      ∀ st, (w.withStore st).receive xs frame =
        ((w.withStore st).dispatchAndLog xs frame).answered := by
  by_cases hrmp : w.session.isRmp = true
  · exact .inr (.inr fun st => if_pos hrmp)
  · by_cases hpsync : isPsyncCommand frame = true
    · have hreceive (st : Store F) : (w.withStore st).receive xs frame =
          match authGate w.acl w.session frame with
          | some reply => ⟨some (.reply reply), w.withStore st, []⟩
          | none =>
            ⟨some (if (xs 0).isReplica then .reply psyncRefused else .handoff), w.withStore st, []⟩ :=
        (if_neg hrmp).trans (if_pos hpsync)
      cases hauth : authGate w.acl w.session frame with
      | some reply => exact .inl ⟨reply, fun st => by rw [hreceive st, hauth]⟩
      | none =>
        cases hreplica : (xs 0).isReplica with
        | true => exact .inl ⟨psyncRefused, fun st => by rw [hreceive st, hauth, hreplica]; rfl⟩
        | false =>
          exact .inr (.inl ⟨hpsync, rfl, fun st => by rw [hreceive st, hauth, hreplica]; rfl⟩)
    · have hreceive (st : Store F) : (w.withStore st).receive xs frame =
          match blockingTimeout F frame with
          | some (.error e) => ⟨some (.reply e), w.withStore st, []⟩
          | _ => ((w.withStore st).dispatchAndLog xs frame).answered :=
        (if_neg hrmp).trans (if_neg hpsync)
      rcases htimeout : blockingTimeout F frame with _ | ⟨e | secs⟩
      · exact .inr (.inr fun st => by rw [hreceive st, htimeout])
      · exact .inl ⟨e, fun st => by rw [hreceive st, htimeout]⟩
      · exact .inr (.inr fun st => by rw [hreceive st, htimeout])

theorem receive_of_plain (hname : ∀ name ∈ ["PSYNC", "BLPOP", "BRPOP", "BLMOVE", "BRPOPLPUSH"],
    commandNameUpper frame ≠ some (txt name)) (xs : Nat → Surroundings F) :
    w.receive xs frame = (w.dispatchAndLog xs frame).answered := by
  have hne (name : String) (hmem : name ∈ ["PSYNC", "BLPOP", "BRPOP", "BLMOVE", "BRPOPLPUSH"])
      {raw : Bytes} {args : List Frame} (hframe : frame = .array (.bulk raw :: args)) :
      asciiUpper raw ≠ txt name := by
    refine asciiUpper_ne (hname name hmem) ?_ ?_ hframe <;>
    · revert name
      decide
  have hpsync : isPsyncCommand frame = false := by
    unfold isPsyncCommand
    split
    · exact decide_eq_false (hne "PSYNC" (by decide) rfl)
    · rfl
  have hblocking : blockingTimeout F frame = none := by
    unfold blockingTimeout
    split
    · next raw args =>
      refine if_neg fun hmem => ?_
      obtain ⟨name, hlisted, hraw⟩ := mem_map.mp hmem
      exact hne name (mem_cons_of_mem _ hlisted) rfl hraw.symm
    · rfl
  unfold receive
  simp only [hpsync, hblocking, ite_self, Bool.false_eq_true, if_false]

theorem receive_of_name {name : Bytes} (hname : commandNameUpper frame = some name)
    (hplain : ∀ n ∈ ["PSYNC", "BLPOP", "BRPOP", "BLMOVE", "BRPOPLPUSH"], name ≠ txt n)
    (xs : Nat → Surroundings F) : w.receive xs frame = (w.dispatchAndLog xs frame).answered :=
  receive_of_plain (fun n hn h => hplain n hn (Option.some.inj (hname.symm.trans h))) xs

end Served

end RocketMem
