import RocketMem.Engine.Commands.Collections
import RocketMem.Engine.Glob
import RocketMem.Server.Command

namespace RocketMem

variable {F : Type} [F64 F]

/-- An arm of `dispatch`: it takes the arguments and gives the reply. -/
abbrev Handler (F : Type) [F64 F] := List Bytes → EngineProgram F Frame

def engineErrorToFrame (e : EngineError) : Frame := .error e.text

def replyWith {α : Type} (f : α → Frame) : EngineResult α → Frame
  | .ok a => f a
  | .error e => engineErrorToFrame e

def okReply : Frame := .simple (txt "OK")

def bulkOrNull : Option Bytes → Frame
  | some b => .bulk b
  | none => .null

def flagReply (b : Bool) : Frame := .integer (if b then 1 else 0)

def countReply (n : Nat) : Frame := .integer n

def bulksReply (items : List Bytes) : Frame := .array (items.map .bulk)

def wrongArgs (name : String) : Frame :=
  .error (txt "ERR wrong number of arguments for '" ++ txt name ++ txt "' command")

def notAnInteger : Frame := .error (txt "ERR value is not an integer or out of range")

def syntaxError : Frame := .error (txt "ERR syntax error")

def invalidCursor : Frame := .error (txt "ERR invalid cursor")

def unknownCommand (name : Bytes) : Frame := .error (txt "ERR unknown command '" ++ name ++ txt "'")

/-- `String::from_utf8_lossy(..).to_ascii_uppercase()`. -/
def upperWord (raw : Bytes) : Bytes := asciiUpper (fromUtf8Lossy raw)

def parseFloat (raw : Bytes) : Option F := if validUtf8 raw then F64.parse raw else none

def formatScore (score : F) : Bytes :=
  match F64.integral score with
  | some n => showInt n
  | none => F64.display score

def parseScore (raw : Bytes) : Except Frame F :=
  match parseFloat raw with
  | some score =>
    if F64.isFinite score then .ok score else .error (.error (txt "ERR value is not a valid float"))
  | none => .error (.error (txt "ERR value is not a valid float"))

variable (F) in
def parseTimeoutSecs (raw : Bytes) : Except Frame F :=
  match (parseFloat raw : Option F) with
  | some secs =>
    if F64.isFinite secs = false ∨ secs < F64.ofNat 0 then
      .error (.error (txt "ERR timeout is negative"))
    else .ok secs
  | none => .error (.error (txt "ERR timeout is not a float or out of range"))

def parseListEnd (raw : Bytes) : Option ListEnd :=
  if asciiUpper raw = txt "LEFT" then some .left
  else if asciiUpper raw = txt "RIGHT" then some .right
  else none

def parseListEnds (a b : Bytes) : Option (ListEnd × ListEnd) := do
  return (← parseListEnd a, ← parseListEnd b)

def saturatingMul (a b : Int) : Int := max i64Min (min i64Max (a * b))

structure ScanOptions where
  pattern : Option Bytes
  typeFilter : Option Bytes

def ScanOptions.parse (allowType : Bool) : List Bytes → ScanOptions → Except Frame ScanOptions
  | [], opts => .ok opts
  | [_], _ => .error syntaxError
  | word :: value :: rest, opts =>
    if upperWord word = txt "MATCH" then parse allowType rest { opts with pattern := some value }
    else if upperWord word = txt "COUNT" then
      match parseI64 value with
      | some n => if 0 < n then parse allowType rest opts else .error notAnInteger
      | none => .error notAnInteger
    else if allowType ∧ upperWord word = txt "TYPE" then
      parse allowType rest { opts with typeFilter := some (asciiLower (fromUtf8Lossy value)) }
    else .error syntaxError

def ScanOptions.matches (opts : ScanOptions) (candidate : Bytes) : Bool :=
  match opts.pattern with
  | none => true
  | some p => globMatch p candidate

namespace Dispatch

variable (env : Env)

def get : Handler F
  | key :: _ => replyWith bulkOrNull <$> getString key
  | _ => return wrongArgs "get"

def countKeys (test : Bytes → EngineProgram F Bool) : List Bytes → EngineProgram F Nat
  | [] => return 0
  | k :: keys => do
    let hit ← test k
    let n ← countKeys test keys
    return if hit then n + 1 else n

def del : Handler F
  | [] => return wrongArgs "del"
  | keys => countReply <$> countKeys Engine.del keys

def existsKey : Handler F
  | [] => return wrongArgs "exists"
  | keys => countReply <$> countKeys Engine.existsKey keys

/-- The integer behind the first occurrence of a flag word: `none` when the word is absent,
`some none` when it has no readable integer after it. -/
def flagValue (flag : String) (words : List Bytes) : Option (Option Int) :=
  (words.findIdx? fun w => upperWord w = txt flag).map fun pos => words[pos + 1]?.bind parseI64

/-- The time to live that SET's trailing words ask for, in milliseconds: `EX` wins over `PX`. -/
def setTtl (words : List Bytes) : Except Frame (Option Int) :=
  match flagValue "EX" words with
  | some (some secs) => .ok (some (saturatingMul secs 1000))
  | some none => .error notAnInteger
  | none =>
    match flagValue "PX" words with
    | some (some ms) => .ok (some ms)
    | some none => .error notAnInteger
    | none => .ok none

def hasFlag (flag : String) (words : List Bytes) : Bool := words.any fun w => upperWord w = txt flag

def setApply (key val : Bytes) (words : List Bytes) : EngineProgram F Bool :=
  if hasFlag "NX" words then setNx env key val
  else if hasFlag "XX" words then setXx env key val
  else do
    Engine.set env key (.string val)
    return true

def set : Handler F
  | key :: val :: words =>
    match setTtl words with
    | .error e => return e
    | .ok ttl => do
      if !(← setApply env key val words) then return .null
      match ttl with
      | none => return okReply
      | some ms =>
        let deadline ← Engine.instantAfter env ms.toNat
        let _ ← Engine.expireAt key deadline
        return okReply
  | _ => return wrongArgs "set"

def append : Handler F
  | key :: suffix :: _ => replyWith countReply <$> RocketMem.append env key suffix
  | _ => return wrongArgs "append"

def strlen : Handler F
  | key :: _ => replyWith countReply <$> RocketMem.strlen key
  | _ => return wrongArgs "strlen"

def getrange : Handler F
  | key :: start :: stop :: _ =>
    match parseI64 start, parseI64 stop with
    | some a, some b => replyWith .bulk <$> RocketMem.getrange key a b
    | _, _ => return notAnInteger
  | _ => return wrongArgs "getrange"

def setrange : Handler F
  | key :: offset :: value :: _ =>
    match parseI64 offset with
    | none => return notAnInteger
    | some n =>
      if n < 0 then return .error (txt "ERR offset is out of range")
      else replyWith countReply <$> RocketMem.setrange env key n.toNat value
  | _ => return wrongArgs "setrange"

def incr : Handler F
  | key :: _ => replyWith .integer <$> incrBy env key 1
  | _ => return wrongArgs "incr"

def decr : Handler F
  | key :: _ => replyWith .integer <$> incrBy env key (-1)
  | _ => return wrongArgs "decr"

def incrby : Handler F
  | key :: delta :: _ =>
    match parseI64 delta with
    | none => return notAnInteger
    | some n => replyWith .integer <$> incrBy env key n
  | _ => return wrongArgs "incrby"

def getset : Handler F
  | key :: val :: _ => replyWith bulkOrNull <$> RocketMem.getset env key val
  | _ => return wrongArgs "getset"

def pairs : List Bytes → List (Bytes × Bytes)
  | k :: v :: rest => (k, v) :: pairs rest
  | _ => []

def mset : Handler F
  | rest@(_ :: _ :: _) =>
    if rest.length % 2 ≠ 0 then return wrongArgs "mset"
    else do
      RocketMem.mset env (pairs rest)
      return okReply
  | _ => return wrongArgs "mset"

def mget : Handler F
  | [] => return wrongArgs "mget"
  | keys => (fun vals => .array (vals.map bulkOrNull)) <$> RocketMem.mget keys

def msetnx : Handler F
  | rest@(_ :: _ :: _) =>
    if rest.length % 2 ≠ 0 then return wrongArgs "msetnx"
    else flagReply <$> RocketMem.msetnx env (pairs rest)
  | _ => return wrongArgs "msetnx"

def hsetPairs (key : Bytes) : List (Bytes × Bytes) → Int → EngineProgram F Frame
  | [], added => return .integer added
  | (field, val) :: rest, added => do
    match ← RocketMem.hset env key field val with
    | .error e => return engineErrorToFrame e
    | .ok isNew => hsetPairs key rest (if isNew then added + 1 else added)

def hset : Handler F
  | key :: rest@(_ :: _ :: _) =>
    if rest.length % 2 ≠ 0 then return wrongArgs "hset" else hsetPairs env key (pairs rest) 0
  | _ => return wrongArgs "hset"

def hget : Handler F
  | key :: field :: _ => replyWith bulkOrNull <$> RocketMem.hget key field
  | _ => return wrongArgs "hget"

def hdel : Handler F
  | key :: fields@(_ :: _) => replyWith .integer <$> RocketMem.hdel env key fields
  | _ => return wrongArgs "hdel"

def hashItems (keep : Bytes → Bool) (m : HashMap Bytes Bytes) : Frame :=
  .array (((env.iter m.keys).filter keep).flatMap fun f =>
    match m.lookup f with
    | some v => [.bulk f, .bulk v]
    | none => [])

def hgetall : Handler F
  | key :: _ => replyWith (hashItems env fun _ => true) <$> RocketMem.hgetall key
  | _ => return wrongArgs "hgetall"

def hscan : Handler F
  | key :: cursor :: rest =>
    if (parseU64 cursor).isNone then return invalidCursor
    else match ScanOptions.parse false rest ⟨none, none⟩ with
      | .error e => return e
      | .ok opts =>
        replyWith (fun m => .array [.bulk (txt "0"), hashItems env opts.matches m]) <$>
          RocketMem.hgetall key
  | _ => return wrongArgs "hscan"

def hexists : Handler F
  | key :: field :: _ => replyWith flagReply <$> RocketMem.hexists key field
  | _ => return wrongArgs "hexists"

def hlen : Handler F
  | key :: _ => replyWith countReply <$> RocketMem.hlen key
  | _ => return wrongArgs "hlen"

def hincrby : Handler F
  | key :: field :: delta :: _ =>
    match parseI64 delta with
    | none => return notAnInteger
    | some n => replyWith .integer <$> RocketMem.hincrby env key field n
  | _ => return wrongArgs "hincrby"

def hkeys : Handler F
  | key :: _ => replyWith bulksReply <$> RocketMem.hkeys env key
  | _ => return wrongArgs "hkeys"

def hvals : Handler F
  | key :: _ => replyWith bulksReply <$> RocketMem.hvals env key
  | _ => return wrongArgs "hvals"

def hmget : Handler F
  | key :: fields@(_ :: _) =>
    replyWith (fun vals => .array (vals.map bulkOrNull)) <$> RocketMem.hmget key fields
  | _ => return wrongArgs "hmget"

def hsetnx : Handler F
  | key :: field :: val :: _ => replyWith flagReply <$> RocketMem.hsetnx env key field val
  | _ => return wrongArgs "hsetnx"

def rpush : Handler F
  | key :: values@(_ :: _) => replyWith countReply <$> RocketMem.rpush env key values
  | _ => return wrongArgs "rpush"

def lpush : Handler F
  | key :: values@(_ :: _) => replyWith countReply <$> RocketMem.lpush env key values
  | _ => return wrongArgs "lpush"

def rpop : Handler F
  | key :: _ => replyWith bulkOrNull <$> RocketMem.rpop env key
  | _ => return wrongArgs "rpop"

def lpop : Handler F
  | key :: _ => replyWith bulkOrNull <$> RocketMem.lpop env key
  | _ => return wrongArgs "lpop"

def lmove : Handler F
  | src :: dst :: a :: b :: _ =>
    match parseListEnds a b with
    | none => return syntaxError
    | some (start, stop) => replyWith bulkOrNull <$> RocketMem.lmove env src dst start stop
  | _ => return wrongArgs "lmove"

def rpoplpush : Handler F
  | src :: dst :: _ => replyWith bulkOrNull <$> RocketMem.lmove env src dst .right .left
  | _ => return wrongArgs "rpoplpush"

def blmove : Handler F
  | src :: dst :: a :: b :: timeout :: _ =>
    match parseTimeoutSecs F timeout with
    | .error e => return e
    | .ok _ =>
      match parseListEnds a b with
      | none => return syntaxError
      | some (start, stop) => replyWith bulkOrNull <$> RocketMem.lmove env src dst start stop
  | _ => return wrongArgs "blmove"

def brpoplpush : Handler F
  | src :: dst :: timeout :: _ =>
    match parseTimeoutSecs F timeout with
    | .error e => return e
    | .ok _ => replyWith bulkOrNull <$> RocketMem.lmove env src dst .right .left
  | _ => return wrongArgs "brpoplpush"

def popAt (stop : ListEnd) (key : Bytes) : EngineProgram F (EngineResult (Option Bytes)) :=
  match stop with
  | .left => RocketMem.lpop env key
  | .right => RocketMem.rpop env key

def firstAvailablePop (stop : ListEnd) :
    List Bytes → EngineProgram F (EngineResult (Option (Bytes × Bytes)))
  | [] => return .ok none
  | key :: keys => do
    match ← popAt env stop key with
    | .error e => return .error e
    | .ok (some val) => return .ok (some (key, val))
    | .ok none => firstAvailablePop stop keys

def poppedReply : Option (Bytes × Bytes) → Frame
  | some (key, val) => .array [.bulk key, .bulk val]
  | none => .null

def blockingPop (name : String) (stop : ListEnd) : Handler F
  | rest@(_ :: _ :: _) =>
    match parseTimeoutSecs F (rest.getLastD []) with
    | .error e => return e
    | .ok _ => replyWith poppedReply <$> firstAvailablePop env stop rest.dropLast
  | _ => return wrongArgs name

def blpop : Handler F := blockingPop env "blpop" .left

def brpop : Handler F := blockingPop env "brpop" .right

def llen : Handler F
  | key :: _ => replyWith countReply <$> RocketMem.llen key
  | _ => return wrongArgs "llen"

def lrange : Handler F
  | key :: start :: stop :: _ =>
    match parseI64 start, parseI64 stop with
    | some a, some b => replyWith bulksReply <$> RocketMem.lrange key a b
    | _, _ => return notAnInteger
  | _ => return wrongArgs "lrange"

def lindex : Handler F
  | key :: index :: _ =>
    match parseI64 index with
    | none => return notAnInteger
    | some i => replyWith bulkOrNull <$> RocketMem.lindex key i
  | _ => return wrongArgs "lindex"

def lset : Handler F
  | key :: index :: val :: _ =>
    match parseI64 index with
    | none => return notAnInteger
    | some i => replyWith (fun _ => okReply) <$> RocketMem.lset env key i val
  | _ => return wrongArgs "lset"

def ltrim : Handler F
  | key :: start :: stop :: _ =>
    match parseI64 start, parseI64 stop with
    | some a, some b => replyWith (fun _ => okReply) <$> RocketMem.ltrim env key a b
    | _, _ => return notAnInteger
  | _ => return wrongArgs "ltrim"

def lrem : Handler F
  | key :: count :: val :: _ =>
    match parseI64 count with
    | none => return notAnInteger
    | some n => replyWith countReply <$> RocketMem.lrem env key n val
  | _ => return wrongArgs "lrem"

def linsert : Handler F
  | key :: place :: pivot :: val :: _ =>
    if upperWord place = txt "BEFORE" then
      replyWith .integer <$> RocketMem.linsert env key true pivot val
    else if upperWord place = txt "AFTER" then
      replyWith .integer <$> RocketMem.linsert env key false pivot val
    else return syntaxError
  | _ => return wrongArgs "linsert"

def membersReply (keep : Bytes → Bool) (s : Finset Bytes) : Frame :=
  bulksReply ((env.iter s).filter keep)

def sadd : Handler F
  | key :: members@(_ :: _) => replyWith .integer <$> RocketMem.sadd env key members
  | _ => return wrongArgs "sadd"

def srem : Handler F
  | key :: members@(_ :: _) => replyWith .integer <$> RocketMem.srem env key members
  | _ => return wrongArgs "srem"

def smembers : Handler F
  | key :: _ => replyWith (membersReply env fun _ => true) <$> RocketMem.smembers key
  | _ => return wrongArgs "smembers"

def sscan : Handler F
  | key :: cursor :: rest =>
    if (parseU64 cursor).isNone then return invalidCursor
    else match ScanOptions.parse false rest ⟨none, none⟩ with
      | .error e => return e
      | .ok opts =>
        replyWith (fun s => .array [.bulk (txt "0"), membersReply env opts.matches s]) <$>
          RocketMem.smembers key
  | _ => return wrongArgs "sscan"

def sismember : Handler F
  | key :: member :: _ => replyWith flagReply <$> RocketMem.sismember key member
  | _ => return wrongArgs "sismember"

def scard : Handler F
  | key :: _ => replyWith countReply <$> RocketMem.scard key
  | _ => return wrongArgs "scard"

def sinter : Handler F
  | [] => return wrongArgs "sinter"
  | keys => replyWith (membersReply env fun _ => true) <$> RocketMem.sinter keys

def sunion : Handler F
  | [] => return wrongArgs "sunion"
  | keys => replyWith (membersReply env fun _ => true) <$> RocketMem.sunion keys

def sdiff : Handler F
  | [] => return wrongArgs "sdiff"
  | keys => replyWith (membersReply env fun _ => true) <$> RocketMem.sdiff keys

def sinterstore : Handler F
  | dest :: keys@(_ :: _) => replyWith countReply <$> RocketMem.sinterstore env dest keys
  | _ => return wrongArgs "sinterstore"

def sunionstore : Handler F
  | dest :: keys@(_ :: _) => replyWith countReply <$> RocketMem.sunionstore env dest keys
  | _ => return wrongArgs "sunionstore"

def sdiffstore : Handler F
  | dest :: keys@(_ :: _) => replyWith countReply <$> RocketMem.sdiffstore env dest keys
  | _ => return wrongArgs "sdiffstore"

def spop : Handler F
  | key :: _ => replyWith bulkOrNull <$> RocketMem.spop env key
  | _ => return wrongArgs "spop"

def srandmember : Handler F
  | key :: _ => replyWith bulkOrNull <$> RocketMem.srandmember env key
  | _ => return wrongArgs "srandmember"

def zadd : Handler F
  | key :: score :: member :: _ =>
    match parseScore score with
    | .error e => return e
    | .ok s => replyWith flagReply <$> RocketMem.zadd env key s member
  | _ => return wrongArgs "zadd"

def zscore : Handler F
  | key :: member :: _ =>
    replyWith (fun s => bulkOrNull (s.map formatScore)) <$> RocketMem.zscore key member
  | _ => return wrongArgs "zscore"

def zrem : Handler F
  | key :: members@(_ :: _) => replyWith .integer <$> RocketMem.zrem env key members
  | _ => return wrongArgs "zrem"

def zcard : Handler F
  | key :: _ => replyWith countReply <$> RocketMem.zcard key
  | _ => return wrongArgs "zcard"

def zincrby : Handler F
  | key :: delta :: member :: _ =>
    match parseScore delta with
    | .error e => return e
    | .ok d => replyWith (fun s => .bulk (formatScore s)) <$> RocketMem.zincrby env key d member
  | _ => return wrongArgs "zincrby"

def zrange : Handler F
  | key :: start :: stop :: _ =>
    match parseI64 start, parseI64 stop with
    | some a, some b => replyWith bulksReply <$> RocketMem.zrange key a b
    | _, _ => return notAnInteger
  | _ => return wrongArgs "zrange"

def zrank : Handler F
  | key :: member :: _ =>
    replyWith (fun r => r.elim .null countReply) <$> RocketMem.zrank key member
  | _ => return wrongArgs "zrank"

def rename : Handler F
  | src :: dst :: _ => replyWith (fun _ => okReply) <$> RocketMem.rename env src dst
  | _ => return wrongArgs "rename"

def renamenx : Handler F
  | src :: dst :: _ => replyWith flagReply <$> RocketMem.renamenx env src dst
  | _ => return wrongArgs "renamenx"

def keyType : Handler F
  | key :: _ => Frame.simple <$> RocketMem.keyType key
  | _ => return wrongArgs "type"

def keys : Handler F
  | pattern :: _ => (fun ks => bulksReply (ks.filter (globMatch pattern))) <$> Engine.keys
  | _ => return wrongArgs "keys"

def filterByType (typeFilter : Option Bytes) : List Bytes → EngineProgram F (List Bytes)
  | [] => return []
  | k :: ks => do
    let keep ← match typeFilter with
      | none => pure true
      | some t => (fun name => decide (name = t)) <$> RocketMem.keyType k
    let rest ← filterByType typeFilter ks
    return if keep then k :: rest else rest

def scan : Handler F
  | cursor :: rest =>
    match parseU64 cursor with
    | none => return invalidCursor
    | some n =>
      match ScanOptions.parse true rest ⟨none, none⟩ with
      | .error e => return e
      | .ok opts => do
        let (next, ks) ← Engine.scan n
        let ks ← filterByType opts.typeFilter (ks.filter opts.matches)
        return .array [.bulk (showNat next), bulksReply ks]
  | _ => return wrongArgs "scan"

def randomkey : EngineProgram F Frame := bulkOrNull <$> RocketMem.randomkey env

def dbsize : EngineProgram F Frame := (fun n => countReply n.1) <$> Engine.keyCounts

/-- `EXPIRE` and `PEXPIRE`: `unit` is the milliseconds in one of the argument's units. -/
def expireIn (name : String) (unit : Nat) : Handler F
  | key :: n :: _ =>
    match parseI64 n with
    | none => return notAnInteger
    | some n => do
      let deadline ← Engine.instantAfter env (n.toNat * unit)
      flagReply <$> Engine.expireAt key deadline
  | _ => return wrongArgs name

def expire : Handler F := expireIn env "expire" 1000

def pexpire : Handler F := expireIn env "pexpire" 1

def expireAtUnix (name : String) (toMs : Int → Int) : Handler F
  | key :: n :: _ =>
    match parseI64 n with
    | none => return notAnInteger
    | some n => flagReply <$> Engine.expireAt key (instantFromUnixMs env.clock (toMs n))
  | _ => return wrongArgs name

def expireat : Handler F := expireAtUnix env "expireat" fun n => saturatingMul n 1000

def pexpireat : Handler F := expireAtUnix env "pexpireat" id

def ttlReply (unit : Nat) : TtlStatus → Frame
  | .noSuchKey => .integer (-2)
  | .noExpiry => .integer (-1)
  | .remaining ms => .integer (wrapI64 (max (ms / unit) 1 : Nat))

def ttl : Handler F
  | key :: _ => ttlReply 1000 <$> Engine.ttl key
  | _ => return wrongArgs "ttl"

def pttl : Handler F
  | key :: _ => ttlReply 1 <$> Engine.ttl key
  | _ => return wrongArgs "pttl"

def persist : Handler F
  | key :: _ => flagReply <$> Engine.persist key
  | _ => return wrongArgs "persist"

def ping : Handler F
  | msg :: _ => return .bulk msg
  | [] => return .simple (txt "PONG")

def echo : Handler F
  | msg :: _ => return .bulk msg
  | [] => return wrongArgs "echo"

/-- First key, last key, step and number of leading words, as `COMMAND` reports them. -/
def keyPositions : KeySpec → Int × Int × Int × Int
  | .none => (0, 0, 0, 0)
  | .first => (1, 1, 1, 1)
  | .second => (2, 2, 1, 2)
  | .all => (1, -1, 1, 1)
  | .everyOther => (1, -1, 2, 2)
  | .firstTwo => (1, 2, 1, 2)
  | .allButLast => (1, -2, 1, 2)

def commandInfoEntry (c : CommandName) : Frame :=
  let (first, last, step, count) := keyPositions (keySpec c)
  .array [.bulk (asciiLower c.text), .integer (-(count + 1)),
    .array [.bulk (if c.isWrite then txt "write" else txt "readonly")],
    .integer first, .integer last, .integer step]

def commandTable : Frame := .array (CommandName.known.map commandInfoEntry)

def commandInfo : Handler F
  | [] => return commandTable
  | sub :: names =>
    if upperWord sub = txt "COUNT" then return countReply CommandName.known.length
    else if upperWord sub = txt "INFO" then
      if names.isEmpty then return commandTable
      else return .array (names.map fun name =>
        match CommandName.known.find? fun c => c.text = upperWord name with
        | some c => commandInfoEntry c
        | none => .null)
    else return .array []

def memory : Handler F
  | [] => return wrongArgs "memory"
  | sub :: rest =>
    if upperWord sub = txt "USAGE" then
      match rest with
      | [] => return wrongArgs "memory usage"
      | key :: _ =>
        (fun v => (v.map Value.approxSize).elim .null countReply) <$> Engine.withRef key
    else return .error (txt "ERR unknown MEMORY subcommand '" ++ upperWord sub ++ txt "'")

def object : Handler F
  | [] => return wrongArgs "object"
  | sub :: rest =>
    if upperWord sub = txt "ENCODING" then
      match rest with
      | [] => return wrongArgs "object encoding"
      | key :: _ =>
        (fun v => (v.map Value.typeName).elim (.error (txt "ERR no such key")) .bulk) <$>
          Engine.withRef key
    else return .error (txt "ERR unknown OBJECT subcommand '" ++ upperWord sub ++ txt "'")

/-- `DEBUG SLEEP` only spends time; nothing of it shows in the store. -/
def debug : Handler F
  | [] => return wrongArgs "debug"
  | sub :: rest =>
    if upperWord sub = txt "SLEEP" then
      match rest with
      | [] => return wrongArgs "debug sleep"
      | raw :: _ =>
        match (parseFloat raw : Option F) with
        | none => return .error (txt "ERR value is not a valid float")
        | some secs =>
          if F64.isFinite secs = false then return .error (txt "ERR timeout is not finite")
          else if F64.ofNat 10 < secs then
            return .error
              (txt "ERR DEBUG SLEEP duration exceeds the 10s maximum allowed on this server")
          else return okReply
    else return .error (txt "ERR unknown DEBUG subcommand '" ++ upperWord sub ++ txt "'")

def arm : CommandName → Handler F
  | .get => get
  | .del => del
  | .existsKey => existsKey
  | .set => set env
  | .append => append env
  | .strlen => strlen
  | .getrange => getrange
  | .setrange => setrange env
  | .incr => incr env
  | .decr => decr env
  | .hset => hset env
  | .hget => hget
  | .incrby => incrby env
  | .hdel => hdel env
  | .hgetall => hgetall env
  | .hscan => hscan env
  | .hexists => hexists
  | .hlen => hlen
  | .hincrby => hincrby env
  | .hkeys => hkeys env
  | .hvals => hvals env
  | .hmget => hmget
  | .hsetnx => hsetnx env
  | .rpush => rpush env
  | .lpush => lpush env
  | .rpop => rpop env
  | .lpop => lpop env
  | .lmove => lmove env
  | .rpoplpush => rpoplpush env
  | .blmove => blmove env
  | .brpoplpush => brpoplpush env
  | .blpop => blpop env
  | .brpop => brpop env
  | .llen => llen
  | .lrange => lrange
  | .lindex => lindex
  | .lset => lset env
  | .ltrim => ltrim env
  | .lrem => lrem env
  | .linsert => linsert env
  | .sadd => sadd env
  | .srem => srem env
  | .smembers => smembers env
  | .sscan => sscan env
  | .sismember => sismember
  | .scard => scard
  | .sinter => sinter env
  | .sunion => sunion env
  | .sdiff => sdiff env
  | .sinterstore => sinterstore env
  | .sunionstore => sunionstore env
  | .sdiffstore => sdiffstore env
  | .spop => spop env
  | .srandmember => srandmember env
  | .getset => getset env
  | .mset => mset env
  | .mget => mget
  | .msetnx => msetnx env
  | .rename => rename env
  | .renamenx => renamenx env
  | .keyType => keyType
  | .zadd => zadd env
  | .zscore => zscore
  | .zrem => zrem env
  | .zcard => zcard
  | .zincrby => zincrby env
  | .zrange => zrange
  | .zrank => zrank
  | .keys => keys
  | .scan => scan
  | .randomkey => fun _ => randomkey env
  | .dbsize => fun _ => dbsize
  | .expire => expire env
  | .pexpire => pexpire env
  | .expireat => expireat env
  | .pexpireat => pexpireat env
  | .ttl => ttl
  | .pttl => pttl
  | .persist => persist
  | .ping => ping
  | .echo => echo
  | .select => fun _ => return okReply
  | .commandInfo => commandInfo
  | .memory => memory
  | .object => object
  | .debug => debug
  -- the remaining names are intercepted before `dispatch`, which does not know them
  | c => fun _ => return unknownCommand c.text

end Dispatch

/-- `dispatcher::dispatch`: one command against the store. -/
def dispatch (env : Env) (frame : Frame) : EngineProgram F Frame :=
  match frameToArgs frame with
  | .error e => return e
  | .ok [] => return .error (txt "ERR empty command")
  | .ok (raw :: rest) =>
    match upperName raw with
    | none => return unknownCommand (fromUtf8Lossy raw)
    | some name =>
      match CommandName.ofText name with
      | none => return unknownCommand name
      | some c => Dispatch.arm env c rest

end RocketMem
