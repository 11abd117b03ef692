import RocketMem.Server.Dispatch

namespace RocketMem

variable {F : Type} [F64 F]

def saturatingAdd (a b : Int) : Int := max i64Min (min i64Max (a + b))

/-- `SystemTime::now()` in milliseconds, cast to `i64`. -/
def Clock.unixMs (c : Clock) : Int := wrapI64 c.wall

def pexpireatFrame (key : Bytes) (unixMs : Int) : Frame :=
  .array [.bulk (txt "PEXPIREAT"), .bulk key, .bulk (showInt unixMs)]

def expireTarget (c : Clock) (name : Bytes) (n : Int) : Option Int :=
  if upperWord name = txt "EXPIRE" then some (saturatingAdd c.unixMs (saturatingMul n 1000))
  else if upperWord name = txt "PEXPIRE" then some (saturatingAdd c.unixMs n)
  else if upperWord name = txt "EXPIREAT" then some (saturatingMul n 1000)
  else if upperWord name = txt "PEXPIREAT" then some n
  else none

def rewriteExpireFamilyToPexpireat (c : Clock) : List Frame → Option Frame
  | .bulk name :: .bulk key :: .bulk arg :: _ => do
    let n ← parseI64 arg
    let target ← expireTarget c name n
    return pexpireatFrame key target
  | _ => none

/-- One of the rewriter's two searches for a time to live: the integer after the first occurrence
of the flag, if there is one. A malformed flag makes the whole rewrite give up. -/
def scanFlag (flag : String) : List Frame → Option (Option Int)
  | [] => some none
  | .bulk raw :: rest =>
    if upperWord raw = txt flag then
      match rest.head? with
      | some (.bulk v) => (parseI64 v).map some
      | _ => none
    else scanFlag flag rest
  | _ :: rest => scanFlag flag rest

def isTtlWord (raw : Bytes) : Bool := upperWord raw = txt "EX" || upperWord raw = txt "PX"

/-- The rewriter's third pass: skip each `EX` and `PX` together with the word after it. -/
def dropTtlFlags : List Frame → List Frame
  | .bulk raw :: rest =>
    if isTtlWord raw then
      match rest with
      | _ :: rest => dropTtlFlags rest
      | [] => []
    else .bulk raw :: dropTtlFlags rest
  | f :: rest => f :: dropTtlFlags rest
  | [] => []

/-- The first two passes: `EX` takes precedence over `PX`, as in `dispatch`. -/
def scanTtl (flags : List Frame) : Option (Option Int) :=
  match scanFlag "EX" flags with
  | none => none
  | some (some n) => some (some (saturatingMul n 1000))
  | some none => scanFlag "PX" flags

/-- `rewrite_set_ttl_to_pexpireat`: a `SET` without its TTL, and the deadline. -/
def rewriteSetTtlToPexpireat (c : Clock) : List Frame → Option (List Frame)
  | name :: .bulk key :: val :: flags => do
    let ttl ← scanTtl flags
    let ttlMs ← ttl
    return [.array (name :: .bulk key :: val :: dropTtlFlags flags),
      pexpireatFrame key (saturatingAdd c.unixMs ttlMs)]
  | _ => none

def logSpop (items : List Frame) (reply : Frame) : List Frame :=
  match reply, items[1]? with
  | .bulk member, some key => [.array [.bulk (txt "SREM"), key, .bulk member]]
  | _, _ => []

def logExpire (c : Clock) (items : List Frame) : Frame → List Frame
  | .integer n => if n = 1 then (rewriteExpireFamilyToPexpireat c items).toList else []
  | _ => []

def logSet (c : Clock) (items : List Frame) : Frame → List Frame
  | .simple _ => (rewriteSetTtlToPexpireat c items).getD [.array items]
  | _ => [.array items]

def logBlocking (items : List Frame) : Frame → List Frame
  | .null => []
  | _ => [.array items]

def logFor (c : Clock) (name : CommandName) (items : List Frame) (reply : Frame) : List Frame :=
  match name with
  | .spop => logSpop items reply
  | .expire | .pexpire | .expireat | .pexpireat => logExpire c items reply
  | .set => logSet c items reply
  | .blmove | .brpoplpush | .blpop | .brpop => logBlocking items reply
  | _ => [.array items]

/-- The frames `dispatch_and_log_gated` appends for a command that was answered with `reply`. -/
def toLog (c : Clock) (frame reply : Frame) : List Frame :=
  if reply.isError then []
  else match extractWriteCommandName frame, frame with
    | some name, .array items => logFor c name items reply
    | _, _ => []

/-- Dispatch frames one after another, as replay and the follower do with what they read. -/
def dispatchAll (env : Env) (frames : List Frame) (st : Store F) : Store F :=
  frames.foldl (fun st frame => (runEngine env (dispatch env frame) st).2) st

end RocketMem
