import RocketMem.Protocol.Frame

namespace RocketMem

/-- The names the server knows: `KNOWN_COMMANDS`, then the ones it answers without listing. -/
inductive CommandName where
  | acl | append | auth | bgrewriteaof | blmove | blpop | brpop | brpoplpush | client | cluster
  | commandInfo | config | dbsize | debug | decr | del | echo | existsKey | expire | expireat
  | get | getrange | getset | hdel | hello | hexists | hget | hgetall | hincrby | hkeys | hlen
  | hmget | hscan | hset | hsetnx | hvals | incr | incrby | info | keys | lindex | linsert | llen
  | lmove | lpop | lpush | lrange | lrem | lset | ltrim | memory | mget | mset | msetnx | object
  | persist | pexpire | pexpireat | ping | psubscribe | psync | pttl | publish | pubsub
  | punsubscribe | randomkey | rename | renamenx | replicaof | rpop | rpoplpush | rpush | sadd
  | save | scan | scard | sdiff | sdiffstore | select | set | setrange | sinter | sinterstore
  | sismember | slowlog | smembers | spop | srandmember | srem | strlen | subscribe | sunion
  | sunionstore | ttl | keyType | unsubscribe | zadd | zcard | zincrby | zrange | zrank | zrem
  | zscore | sscan | multi | exec | discard
  deriving DecidableEq, Repr

namespace CommandName

def text : CommandName → Bytes
  | acl => txt "ACL"
  | append => txt "APPEND"
  | auth => txt "AUTH"
  | bgrewriteaof => txt "BGREWRITEAOF"
  | blmove => txt "BLMOVE"
  | blpop => txt "BLPOP"
  | brpop => txt "BRPOP"
  | brpoplpush => txt "BRPOPLPUSH"
  | client => txt "CLIENT"
  | cluster => txt "CLUSTER"
  | commandInfo => txt "COMMAND"
  | config => txt "CONFIG"
  | dbsize => txt "DBSIZE"
  | debug => txt "DEBUG"
  | decr => txt "DECR"
  | del => txt "DEL"
  | echo => txt "ECHO"
  | existsKey => txt "EXISTS"
  | expire => txt "EXPIRE"
  | expireat => txt "EXPIREAT"
  | get => txt "GET"
  | getrange => txt "GETRANGE"
  | getset => txt "GETSET"
  | hdel => txt "HDEL"
  | hello => txt "HELLO"
  | hexists => txt "HEXISTS"
  | hget => txt "HGET"
  | hgetall => txt "HGETALL"
  | hincrby => txt "HINCRBY"
  | hkeys => txt "HKEYS"
  | hlen => txt "HLEN"
  | hmget => txt "HMGET"
  | hscan => txt "HSCAN"
  | hset => txt "HSET"
  | hsetnx => txt "HSETNX"
  | hvals => txt "HVALS"
  | incr => txt "INCR"
  | incrby => txt "INCRBY"
  | info => txt "INFO"
  | keys => txt "KEYS"
  | lindex => txt "LINDEX"
  | linsert => txt "LINSERT"
  | llen => txt "LLEN"
  | lmove => txt "LMOVE"
  | lpop => txt "LPOP"
  | lpush => txt "LPUSH"
  | lrange => txt "LRANGE"
  | lrem => txt "LREM"
  | lset => txt "LSET"
  | ltrim => txt "LTRIM"
  | memory => txt "MEMORY"
  | mget => txt "MGET"
  | mset => txt "MSET"
  | msetnx => txt "MSETNX"
  | object => txt "OBJECT"
  | persist => txt "PERSIST"
  | pexpire => txt "PEXPIRE"
  | pexpireat => txt "PEXPIREAT"
  | ping => txt "PING"
  | psubscribe => txt "PSUBSCRIBE"
  | psync => txt "PSYNC"
  | pttl => txt "PTTL"
  | publish => txt "PUBLISH"
  | pubsub => txt "PUBSUB"
  | punsubscribe => txt "PUNSUBSCRIBE"
  | randomkey => txt "RANDOMKEY"
  | rename => txt "RENAME"
  | renamenx => txt "RENAMENX"
  | replicaof => txt "REPLICAOF"
  | rpop => txt "RPOP"
  | rpoplpush => txt "RPOPLPUSH"
  | rpush => txt "RPUSH"
  | sadd => txt "SADD"
  | save => txt "SAVE"
  | scan => txt "SCAN"
  | scard => txt "SCARD"
  | sdiff => txt "SDIFF"
  | sdiffstore => txt "SDIFFSTORE"
  | select => txt "SELECT"
  | set => txt "SET"
  | setrange => txt "SETRANGE"
  | sinter => txt "SINTER"
  | sinterstore => txt "SINTERSTORE"
  | sismember => txt "SISMEMBER"
  | slowlog => txt "SLOWLOG"
  | smembers => txt "SMEMBERS"
  | spop => txt "SPOP"
  | srandmember => txt "SRANDMEMBER"
  | srem => txt "SREM"
  | strlen => txt "STRLEN"
  | subscribe => txt "SUBSCRIBE"
  | sunion => txt "SUNION"
  | sunionstore => txt "SUNIONSTORE"
  | ttl => txt "TTL"
  | keyType => txt "TYPE"
  | unsubscribe => txt "UNSUBSCRIBE"
  | zadd => txt "ZADD"
  | zcard => txt "ZCARD"
  | zincrby => txt "ZINCRBY"
  | zrange => txt "ZRANGE"
  | zrank => txt "ZRANK"
  | zrem => txt "ZREM"
  | zscore => txt "ZSCORE"
  | sscan => txt "SSCAN"
  | multi => txt "MULTI"
  | exec => txt "EXEC"
  | discard => txt "DISCARD"

def known : List CommandName := [
  .acl, .append, .auth, .bgrewriteaof, .blmove, .blpop, .brpop, .brpoplpush, .client, .cluster,
  .commandInfo, .config, .dbsize, .debug, .decr, .del, .echo, .existsKey, .expire, .expireat,
  .get, .getrange, .getset, .hdel, .hello, .hexists, .hget, .hgetall, .hincrby, .hkeys, .hlen,
  .hmget, .hscan, .hset, .hsetnx, .hvals, .incr, .incrby, .info, .keys, .lindex, .linsert, .llen,
  .lmove, .lpop, .lpush, .lrange, .lrem, .lset, .ltrim, .memory, .mget, .mset, .msetnx, .object,
  .persist, .pexpire, .pexpireat, .ping, .psubscribe, .psync, .pttl, .publish, .pubsub,
  .punsubscribe, .randomkey, .rename, .renamenx, .replicaof, .rpop, .rpoplpush, .rpush, .sadd,
  .save, .scan, .scard, .sdiff, .sdiffstore, .select, .set, .setrange, .sinter, .sinterstore,
  .sismember, .slowlog, .smembers, .spop, .srandmember, .srem, .strlen, .subscribe, .sunion,
  .sunionstore, .ttl, .keyType, .unsubscribe, .zadd, .zcard, .zincrby, .zrange, .zrank, .zrem,
  .zscore]

/-- Names matched by `dispatch` or by the transaction layer that `KNOWN_COMMANDS` leaves out. -/
def unlisted : List CommandName := [.sscan, .multi, .exec, .discard]

def ofText (name : Bytes) : Option CommandName := (known ++ unlisted).find? fun c => c.text = name

def write : List CommandName := [
  .set, .append, .setrange, .getset, .mset, .msetnx, .incr, .decr, .incrby, .del, .expire,
  .pexpire, .expireat, .pexpireat, .persist, .rename, .renamenx, .hset, .hdel, .hincrby, .hsetnx,
  .rpush, .lpush, .rpop, .lpop, .lset, .ltrim, .lrem, .linsert, .lmove, .rpoplpush, .blmove,
  .brpoplpush, .blpop, .brpop, .sadd, .srem, .spop, .sinterstore, .sunionstore, .sdiffstore,
  .zadd, .zrem, .zincrby]

def isWrite (c : CommandName) : Bool := decide (c ∈ write)

end CommandName

def maxCommandNameLen : Nat := 32

/-- `upper_name`: a name that is too long or not ASCII cannot be a command. -/
def upperName (raw : Bytes) : Option Bytes :=
  if maxCommandNameLen < raw.length ∨ isAscii raw = false then none else some (asciiUpper raw)

def commandName (raw : Bytes) : Option CommandName := (upperName raw).bind CommandName.ofText

inductive KeySpec where
  | none | first | second | all | everyOther | firstTwo | allButLast
  deriving DecidableEq, Repr

/-- `key_spec`: which arguments of a command are keys. -/
def keySpec (c : CommandName) : KeySpec :=
  match c with
  | .ping | .echo | .select | .commandInfo | .info | .hello | .keys | .scan | .randomkey
  | .cluster | .save | .bgrewriteaof | .replicaof | .psync | .slowlog | .debug | .auth | .acl
  | .dbsize | .config | .client | .subscribe | .unsubscribe | .psubscribe | .punsubscribe
  | .publish | .pubsub =>
    .none
  | .memory | .object => .second
  | .del | .existsKey | .mget | .rename | .renamenx | .sinter | .sunion | .sdiff | .sinterstore
  | .sunionstore | .sdiffstore => .all
  | .mset | .msetnx => .everyOther
  | .lmove | .blmove | .rpoplpush | .brpoplpush => .firstTwo
  | .blpop | .brpop => .allButLast
  | c => if c ∈ CommandName.known then .first else .none

def stepByTwo {α : Type} : List α → List α
  | a :: _ :: rest => a :: stepByTwo rest
  | rest => rest

def KeySpec.select : KeySpec → List Bytes → List Bytes
  | .none, _ => []
  | .first, args => args.take 1
  | .second, args => (args.drop 1).take 1
  | .all, args => args
  | .everyOther, args => stepByTwo args
  | .firstTwo, args => args.take 2
  | .allButLast, args => args.take (args.length - 1)

def Frame.bulk? : Frame → Option Bytes
  | .bulk b => some b
  | _ => none

def commandKeys : Frame → List Bytes
  | .array (.bulk name :: items) =>
    match commandName name with
    | some c => (keySpec c).select (items.filterMap Frame.bulk?)
    | none => []
  | _ => []

def extractWriteCommandName : Frame → Option CommandName
  | .array (.bulk name :: _) => (commandName name).filter CommandName.isWrite
  | _ => none

def invalidRequest : Frame := .error (txt "ERR invalid request, expected array of bulk strings")

def frameToArgs : Frame → Except Frame (List Bytes)
  | .array items =>
    match items.mapM Frame.bulk? with
    | some args => .ok args
    | none => .error invalidRequest
  | _ => .error invalidRequest

theorem mapM_bulk (words : List Bytes) : (words.map Frame.bulk).mapM Frame.bulk? = some words := by
  induction words with
  | nil => rfl
  | cons w ws ih => simp [Frame.bulk?, ih]

theorem frameToArgs_command (words : List Bytes) : frameToArgs (.command words) = .ok words := by
  simp only [frameToArgs, Frame.command, mapM_bulk]

theorem frameToArgs_error {frame e : Frame} (h : frameToArgs frame = .error e) :
    e = invalidRequest := by
  unfold frameToArgs at h
  split at h
  · split at h
    · cases h
    · exact (Except.error.inj h).symm
  · exact (Except.error.inj h).symm

theorem frameToArgs_ok {frame : Frame} {words : List Bytes} (h : frameToArgs frame = .ok words) :
    frame = .command words := by
  cases frame with
  | array items =>
    simp only [frameToArgs] at h
    split at h
    · next args hargs =>
      cases h
      suffices items = words.map Frame.bulk by rw [this, Frame.command]
      clear * - hargs
      induction items generalizing words with
      | nil =>
        simp at hargs
        subst hargs
        rfl
      | cons f fs ih =>
        simp only [List.mapM_cons, Option.pure_def, Option.bind_eq_bind, Option.bind_eq_some_iff,
          Option.some.injEq] at hargs
        obtain ⟨b, hb, bs, hbs, rfl⟩ := hargs
        rw [ih hbs]
        cases f <;> simp_all [Frame.bulk?]
    · cases h
  | _ => cases h

end RocketMem
