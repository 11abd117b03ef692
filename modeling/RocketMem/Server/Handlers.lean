import RocketMem.Server.Cluster
import RocketMem.Server.Node

namespace RocketMem

def argsOf (name : String) : Frame → Option (List Frame)
  | .array (.bulk raw :: args) => if asciiUpper raw = txt name then some args else none
  | _ => none

def unknownSubcommand (command : String) (sub : Bytes) : Frame :=
  .error (txt "ERR unknown " ++ txt command ++ txt " subcommand '" ++ sub ++ txt "'")

/-- What an I/O error says of itself is one line. -/
structure IoError where
  text : Bytes
  oneLine : 13 ∉ text

inductive SaveStep where
  | readGeneration
  | readOffset
  | writeSnapshot
  deriving DecidableEq, Repr

inductive RewriteStep where
  | start
  | writeSnapshot
  | commit
  deriving DecidableEq, Repr

def SaveStep.text : SaveStep → String
  | readGeneration => "ERR failed to read AOF generation: "
  | readOffset => "ERR failed to read AOF offset: "
  | writeSnapshot => "ERR failed to write snapshot: "

def RewriteStep.text : RewriteStep → String
  | start => "ERR failed to start AOF rewrite: "
  | writeSnapshot => "ERR failed to write rewritten snapshot: "
  | commit => "ERR failed to commit AOF rewrite: "

def persistReply {Step : Type} (text : Step → String) (failed : Option (Step × IoError)) : Frame :=
  failed.elim okReply fun f => errorReply (text f.1) f.2.text

def isNoOne (a b : Bytes) : Bool := asciiUpper a = txt "NO" && asciiUpper b = txt "ONE"

def handleReplicaof (frame : Frame) : Option Frame :=
  (argsOf "REPLICAOF" frame).map fun
    | [.bulk _, .bulk _] => okReply
    | [.bulk a, .bulk b, .bulk keyword, .bulk _, .bulk _] =>
      if asciiUpper keyword ≠ txt "AUTH" ∨ isNoOne a b then syntaxErrorReply else okReply
    | [.bulk _, .bulk _, _, _, _] => syntaxErrorReply
    | _ => wrongArgs "replicaof"

/-- `handle_info`; `infoText` writes the report, of one section or of all. -/
def handleInfo (infoText : Option Bytes → Bytes) (frame : Frame) : Option Frame :=
  (argsOf "INFO" frame).map fun args =>
    .bulk (infoText (match args.head? with
      | some (.bulk raw) =>
        let requested := asciiLower (fromUtf8Lossy raw)
        if requested ∈ [txt "all", txt "default", txt "everything"] then none else some requested
      | _ => none))

structure SlowLogEntry where
  id : UInt64
  unixTimeSecs : Int
  durationMicros : Int
  command : Bytes
  key : Option Bytes
  argCount : Nat

def slowlogCapacity : Nat := 128

/-- `slowlog_args_frame`: the command, its first argument and how many more there were. -/
def slowlogArgsFrame (entry : SlowLogEntry) : Frame :=
  let shown := if entry.key.isSome then 1 else 0
  .array (.bulk entry.command :: entry.key.toList.map .bulk ++
    if shown < entry.argCount then
      [.bulk (txt "... (" ++ showNat (entry.argCount - shown) ++ txt " more arguments)")]
    else [])

def slowlogEntryFrame (entry : SlowLogEntry) : Frame :=
  .array [.integer (wrapI64 entry.id.toNat), .integer entry.unixTimeSecs,
    .integer entry.durationMicros, slowlogArgsFrame entry]

/-- How many entries `SLOWLOG GET` asks for: ten unless it says so, and all if it is negative. -/
def slowlogCount : Option Frame → Option Nat
  | none => some 10
  | some (.bulk raw) => (parseI64 raw).map fun n => if n < 0 then slowlogCapacity else n.toNat
  | some _ => none

/-- `handle_slowlog`, where `entries` are the recorded commands, newest first. -/
def handleSlowlog (entries : List SlowLogEntry) (frame : Frame) : Option Frame :=
  (argsOf "SLOWLOG" frame).map fun
    | .bulk sub :: args =>
      let sub := upperWord sub
      if sub = txt "GET" then
        (slowlogCount args.head?).elim notAnInteger fun count =>
          .array ((entries.take count).map slowlogEntryFrame)
      else if sub = txt "LEN" then .integer entries.length
      else if sub = txt "RESET" then okReply
      else unknownSubcommand "SLOWLOG" sub
    | _ => wrongArgs "slowlog"

def fsyncPolicyName : FsyncPolicy → Bytes
  | .always => txt "always"
  | .everySecond => txt "everysec"
  | .never => txt "no"

def configParameters (maxmemory : Option Nat) (policy : FsyncPolicy) (slowlogThreshold : Nat) :
    List (Bytes × Bytes) :=
  [(txt "maxmemory", showNat (maxmemory.getD 0)), (txt "maxmemory-policy", txt "allkeys-lru"),
    (txt "appendonly", txt "yes"), (txt "appendfsync", fsyncPolicyName policy),
    (txt "databases", txt "1"), (txt "notify-keyspace-events", []),
    (txt "slowlog-log-slower-than", showNat slowlogThreshold), (txt "save", []),
    (txt "timeout", txt "0")]

/-- `CONFIG GET`: the parameters that one of the patterns matches. -/
def configGet (parameters : List (Bytes × Bytes)) (args : List Frame) : Frame :=
  let patterns := bulkArgs args
  if patterns = [] then wrongArgs "config|get"
  else .array ((parameters.filter fun p => patterns.any (globMatch · p.1)).flatMap fun p =>
    [.bulk p.1, .bulk p.2])

def configSet : List Frame → Frame
  | .bulk param :: _ =>
    .error (txt "ERR Unknown option or number of arguments for CONFIG SET - '" ++
      fromUtf8Lossy param ++ txt "'")
  | _ => wrongArgs "config|set"

def handleConfig (parameters : List (Bytes × Bytes)) (frame : Frame) : Option Frame :=
  (argsOf "CONFIG" frame).map fun
    | .bulk sub :: args =>
      let sub := upperWord sub
      if sub = txt "GET" then configGet parameters args
      else if sub = txt "SET" then configSet args
      else unknownSubcommand "CONFIG" sub
    | _ => wrongArgs "config"

section

variable (clientId : UInt64) (peerAddr : Bytes)

def clientInfoText (session : Session) (name : Option Bytes) : Bytes :=
  txt "id=" ++ showNat clientId.toNat ++ txt " addr=" ++ peerAddr ++
    txt " name=" ++ (name.map fromUtf8Lossy).getD [] ++
    txt " resp=" ++ (match session.protocol with | .resp2 => txt "2" | .resp3 => txt "3") ++
    txt " db=0 cmd=client|info user=" ++
    (session.authenticatedUser.map AclUser.username).getD (txt "default")

/-- `CLIENT SETNAME`: the reply, and the name the connection has then. -/
def clientSetname (name : Option Bytes) : List Frame → Frame × Option Bytes
  | .bulk newName :: _ =>
    if newName.any fun b => b < 33 || 126 < b then
      (.error (txt "ERR Client names cannot contain spaces, newlines or special characters."), name)
    else (okReply, if newName = [] then none else some newName)
  | _ => (wrongArgs "client|setname", name)

def handleClient (session : Session) (name : Option Bytes) (frame : Frame) :
    Option (Frame × Option Bytes) :=
  (argsOf "CLIENT" frame).map fun
    | .bulk sub :: args =>
      let sub := upperWord sub
      if sub = txt "ID" then (.integer (wrapI64 clientId.toNat), name)
      else if sub = txt "GETNAME" then (.bulk (name.getD []), name)
      else if sub = txt "SETNAME" then clientSetname name args
      else if sub = txt "INFO" then (.bulk (clientInfoText clientId peerAddr session name), name)
      else if sub = txt "LIST" then
        (.error (txt "ERR CLIENT LIST is not supported by rocket-mem: no live connection " ++
          txt "registry exists"), name)
      else (unknownSubcommand "CLIENT" sub, name)
    | _ => (wrongArgs "client", name)

end

/-- `rule_token`; `lower` is `str::to_lowercase`. -/
def ruleToken (lower : Bytes → Bytes) : AclRule → Bytes
  | .allCommands => txt "+@all"
  | .noCommands => txt "-@all"
  | .allowCommand c => txt "+" ++ lower c
  | .denyCommand c => txt "-" ++ lower c
  | .allKeys => txt "~*"
  | .keyPattern p => txt "~" ++ p

def joinWords (words : List Bytes) : Bytes := (words.intersperse (txt " ")).flatten

def renderUserLine (lower : Bytes → Bytes) (user : AclUser) : Bytes :=
  joinWords ([txt "user", user.username, if user.enabled then txt "on" else txt "off",
    user.passwordHash.elim (txt "nopass") (txt "#" ++ ·)] ++ user.rules.map (ruleToken lower))

def AclRule.isKeyRule : AclRule → Bool
  | allKeys | keyPattern _ => true
  | _ => false

def aclGetuser (lower : Bytes → Bytes) (acl : AclStore) : List Frame → Frame
  | .bulk username :: _ =>
    (acl.getUser (fromUtf8Lossy username)).elim .null fun user =>
      .map [
        (.bulk (txt "flags"), .array [.bulk (if user.enabled then txt "on" else txt "off")]),
        (.bulk (txt "passwords"), .array (user.passwordHash.toList.map .bulk)),
        (.bulk (txt "commands"),
          .bulk (joinWords ((user.rules.filter fun r => !r.isKeyRule).map (ruleToken lower)))),
        (.bulk (txt "keys"), .bulk (joinWords ((user.rules.filter AclRule.isKeyRule).map
          (ruleToken lower))))]
  | _ => wrongArgs "acl|getuser"

/-- `acl_list`, in the order the table of users is walked in. -/
def aclList (lower : Bytes → Bytes) (iter : Finset Bytes → List Bytes) (acl : AclStore) : Frame :=
  .array (((iter acl.users.keys).filterMap acl.getUser).map fun user =>
    .bulk (renderUserLine lower user))

def describeUsers (lower : Bytes → Bytes) (iter : Finset Bytes → List Bytes) (acl : AclStore)
    (sub : Bytes) (args : List Frame) : Frame :=
  if sub = txt "LIST" then aclList lower iter acl else aclGetuser lower acl args

end RocketMem
