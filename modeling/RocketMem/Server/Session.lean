import RocketMem.Protocol.Codec
import RocketMem.Server.Acl
import RocketMem.Server.Dispatch

namespace RocketMem

inductive TransactionState where
  | idle
  | queuing (commands : List Frame) (dirty : Bool)

/-- One connection's state. `pushTx` is the channel its pushed messages go through, which the first
subscription opens. -/
structure Session where
  protocol : Protocol
  authenticatedUser : Option AclUser
  inTransaction : Bool
  tx : TransactionState
  subscriptions : Finset Bytes
  psubscriptions : Finset Bytes
  subscriptionCount : Nat
  pushTx : Option Nat
  isRmp : Bool

namespace Session

def new : Session := ⟨.resp2, none, false, .idle, ∅, ∅, 0, none, false⟩

def newForRmp : Session := { new with isRmp := true }

end Session

def commandNameUpper : Frame → Option Bytes
  | .array (.bulk raw :: _) => upperName raw
  | _ => none

theorem upperName_of_asciiUpper {raw name : Bytes} (h : asciiUpper raw = name)
    (hlen : name.length ≤ maxCommandNameLen) (hascii : isAscii name = true) :
    upperName raw = some name := by
  have hraw : raw.length = name.length := by rw [← h, asciiUpper, List.length_map]
  have hbytes : isAscii raw = true := by
    refine List.all_eq_true.mpr fun c hc => ?_
    have hupper : (if 97 ≤ c.toNat ∧ c.toNat ≤ 122 then c - 32 else c) ∈ name :=
      h ▸ List.mem_map_of_mem hc
    have hsmall := List.all_eq_true.mp hascii _ hupper
    by_cases hlower : 97 ≤ c.toNat ∧ c.toNat ≤ 122
    · simp only [decide_eq_true_eq]
      omega
    · rwa [if_neg hlower] at hsmall
  have hfits : ¬ (maxCommandNameLen < raw.length ∨ isAscii raw = false) := by
    rw [hbytes, hraw]
    simp only [Bool.true_eq_false, or_false]
    omega
  rw [upperName, if_neg hfits, h]

def noAuth : Frame := .error (txt "NOAUTH Authentication required.")

def noPermKey : Frame := .error (txt "NOPERM no permissions to access a key")

def noPermCommand : Frame := .error (txt "NOPERM this user has no permissions to run this command")

/-- `auth_gate`: the user is looked up again, by the name it authenticated with. -/
def authGate (acl : AclStore) (session : Session) (frame : Frame) : Option Frame :=
  if acl.everConfigured = false then none
  else match commandNameUpper frame with
    | none => none
    | some name =>
      if name = txt "AUTH" ∨ name = txt "HELLO" then none
      else match session.authenticatedUser with
        | none => some noAuth
        | some cached =>
          match (acl.getUser cached.username).filter AclUser.enabled with
          | none => some noAuth
          | some user =>
            if user.isAllowed name (commandKeys frame) then none
            else if user.isAllowed name [] then some noPermKey
            else some noPermCommand

theorem authGate_reply {acl : AclStore} {session : Session} {frame reply : Frame}
    (h : authGate acl session frame = some reply) :
    reply = noAuth ∨ reply = noPermKey ∨ reply = noPermCommand := by
  unfold authGate at h
  split at h
  · cases h
  · split at h
    · cases h
    · split at h
      · cases h
      · split at h
        · exact .inl (Option.some.inj h).symm
        · split at h
          · exact .inl (Option.some.inj h).symm
          · split_ifs at h
            · exact .inr (.inl (Option.some.inj h).symm)
            · exact .inr (.inr (Option.some.inj h).symm)

theorem authGate_error {acl : AclStore} {session : Session} {frame reply : Frame}
    (h : authGate acl session frame = some reply) : ∃ e, reply = .error e := by
  rcases authGate_reply h with rfl | rfl | rfl <;> exact ⟨_, rfl⟩

def subscribeModeCommands : List Bytes :=
  [txt "SUBSCRIBE", txt "UNSUBSCRIBE", txt "PSUBSCRIBE", txt "PUNSUBSCRIBE", txt "PING", txt "QUIT"]

/-- `subscribe_mode_gate`: what a subscribed RESP2 session may send. -/
def subscribeModeGate (session : Session) (frame : Frame) : Option Frame :=
  if session.subscriptionCount = 0 ∨ session.protocol ≠ .resp2 then none
  else match commandNameUpper frame with
    | none => none
    | some name =>
      if name ∈ subscribeModeCommands then none
      else some (.error (txt "ERR only (P)SUBSCRIBE / (P)UNSUBSCRIBE / PING / QUIT / RESET are allowed in this context"))

def queuedReply : Frame := .simple (txt "QUEUED")

def handleMulti (session : Session) : Frame × Session :=
  match session.tx with
  | .queuing _ _ => (.error (txt "ERR MULTI calls can not be nested"), session)
  | .idle => (okReply, { session with tx := .queuing [] false, inTransaction := true })

def handleDiscard (session : Session) : Frame × Session :=
  match session.tx with
  | .idle => (.error (txt "ERR DISCARD without MULTI"), session)
  | .queuing _ _ => (okReply, { session with tx := .idle, inTransaction := false })

/-- What `EXEC` takes from the session: an error to answer with, or the commands to run. -/
def takeQueue (session : Session) : Except Frame (List Frame) × Session :=
  match session.tx with
  | .idle => (.error (.error (txt "ERR EXEC without MULTI")), session)
  | .queuing commands dirty =>
    (if dirty then
        .error (.error (txt "EXECABORT Transaction discarded because of previous errors"))
      else .ok commands,
      { session with tx := .idle, inTransaction := false })

def unqueueable : List Bytes :=
  [txt "SUBSCRIBE", txt "UNSUBSCRIBE", txt "PSUBSCRIBE", txt "PUNSUBSCRIBE"]

def queueCommand (session : Session) (commands : List Frame) (dirty : Bool) (name : Bytes)
    (frame : Frame) : Frame × Session :=
  if name ∈ unqueueable then
    (.error (txt "ERR " ++ name ++ txt " is not allowed in transactions"),
      { session with tx := .queuing commands true })
  else if name ∈ CommandName.known.map CommandName.text then
    (queuedReply, { session with tx := .queuing (commands ++ [frame]) dirty })
  else
    (.error (txt "ERR unknown command '" ++ name ++ txt "'"),
      { session with tx := .queuing commands true })

/-- What `intercept_for_transaction` makes of a frame: it goes on to the gated path, is answered
here, or is the `EXEC` of the queue. -/
inductive Intercepted where
  | proceed
  | answered (reply : Frame) (session : Session)
  | exec

/-- `intercept_for_transaction`: answer, queue, or let the command go on. -/
def interceptForTransaction (session : Session) (frame : Frame) : Intercepted :=
  match commandNameUpper frame with
  | none => .proceed
  | some name =>
    if name = txt "MULTI" then .answered (handleMulti session).1 (handleMulti session).2
    else if name = txt "DISCARD" then .answered (handleDiscard session).1 (handleDiscard session).2
    else if name = txt "EXEC" then .exec
    else if session.inTransaction = false then .proceed
    else match session.tx with
      | .idle => .proceed
      | .queuing commands dirty =>
        let r := queueCommand session commands dirty name frame
        .answered r.1 r.2

section

variable (argon : Argon2) (acl : AclStore)

def tryAuthenticate (username password : Bytes) : Except Frame AclUser :=
  if acl.everConfigured = false then
    .error (.error (txt "ERR Client sent AUTH, but no password is set."))
  else match acl.authenticate argon username password with
    | some user => .ok user
    | none => .error (.error (txt "WRONGPASS invalid username-password pair or user is disabled."))

def syntaxErrorReply : Frame := .error (txt "ERR syntax error")

def authenticateAs (session : Session) (username password : Bytes) : Frame × Session :=
  match tryAuthenticate argon acl username password with
  | .ok user => (okReply, { session with authenticatedUser := some user })
  | .error e => (e, session)

def handleAuth (session : Session) : Frame → Option (Frame × Session)
  | .array (.bulk raw :: args) =>
    if asciiUpper raw ≠ txt "AUTH" then none
    else some (match args with
      | [.bulk pw] => authenticateAs argon acl session (txt "default") pw
      | [_] => (syntaxErrorReply, session)
      | [.bulk user, .bulk pw] => authenticateAs argon acl session (fromUtf8Lossy user) pw
      | [_, _] => (syntaxErrorReply, session)
      | _ => (.error (txt "ERR wrong number of arguments for 'auth' command"), session))
  | _ => none

def helloReply (protocol : Protocol) (clientId : UInt64) (role mode : Bytes) : Frame :=
  .map [
    (.bulk (txt "server"), .bulk (txt "redis")),
    (.bulk (txt "version"), .bulk (txt "rocket-mem-0.1.0")),
    (.bulk (txt "proto"), .integer (match protocol with | .resp2 => 2 | .resp3 => 3)),
    (.bulk (txt "id"), .integer (wrapI64 clientId.toNat)),
    (.bulk (txt "mode"), .bulk mode),
    (.bulk (txt "role"), .bulk role),
    (.bulk (txt "modules"), .array [])]

/-- `apply_hello_extra_args`: nothing, or inline credentials. -/
def applyHelloExtraArgs (session : Session) : List Frame → Except Frame Session
  | [] => .ok session
  | [.bulk kw, .bulk user, .bulk pass] =>
    if asciiUpper kw ≠ txt "AUTH" then .error syntaxErrorReply
    else match tryAuthenticate argon acl (fromUtf8Lossy user) pass with
      | .ok authenticated => .ok { session with authenticatedUser := some authenticated }
      | .error e => .error e
  | _ => .error syntaxErrorReply

def negotiate (session : Session) (clientId : UInt64) (role mode : Bytes) (protocol : Protocol)
    (extra : List Frame) : Frame × Session :=
  match applyHelloExtraArgs argon acl session extra with
  | .error e => (e, session)
  | .ok session =>
    if acl.everConfigured = true ∧ session.authenticatedUser = none then (noAuth, session)
    else (helloReply protocol clientId role mode, { session with protocol := protocol })

def handleHello (session : Session) (clientId : UInt64) (role mode : Bytes) :
    Frame → Option (Frame × Session)
  | .array (.bulk raw :: args) =>
    if asciiUpper raw ≠ txt "HELLO" then none
    else some (match args with
      | [] =>
        if acl.everConfigured = true ∧ session.authenticatedUser = none then (noAuth, session)
        else (helloReply session.protocol clientId role mode, session)
      | .bulk arg :: extra =>
        if arg = txt "2" then negotiate argon acl session clientId role mode .resp2 extra
        else if arg = txt "3" then negotiate argon acl session clientId role mode .resp3 extra
        else (.error (txt "NOPROTO unsupported protocol version"), session)
      | _ => (invalidRequest, session))
  | _ => none

def aclSetuser : List Frame → Frame × AclStore
  | .bulk username :: rest =>
    match rest.mapM Frame.bulk? with
    | none => (syntaxErrorReply, acl)
    | some rawTokens =>
      match acl.setUser argon (fromUtf8Lossy username) rawTokens with
      | .ok acl' => (okReply, acl')
      | .error e => (.error e.text, acl)
  | _ => (.error (txt "ERR wrong number of arguments for 'acl|setuser' command"), acl)

end

def delUsers (acl : AclStore) : List Bytes → Nat × AclStore
  | [] => (0, acl)
  | username :: rest =>
    let r := acl.delUser (fromUtf8Lossy username)
    let more := delUsers r.2 rest
    ((if r.1 then 1 else 0) + more.1, more.2)

def aclDeluser (acl : AclStore) (args : List Frame) : Frame × AclStore :=
  if args.isEmpty then
    (.error (txt "ERR wrong number of arguments for 'acl|deluser' command"), acl)
  else
    let r := delUsers acl (args.filterMap Frame.bulk?)
    (.integer r.1, r.2)

def aclWhoami (session : Session) : Frame :=
  .bulk ((session.authenticatedUser.map AclUser.username).getD (txt "default"))

/-- `handle_acl`; `none` for any other command. `describe` writes the replies of `LIST` and
`GETUSER`, which only read the users. -/
def handleAcl (argon : Argon2) (describe : AclStore → Bytes → List Frame → Frame) (acl : AclStore)
    (session : Session) : Frame → Option (Frame × AclStore)
  | .array (.bulk raw :: args) =>
    if asciiUpper raw ≠ txt "ACL" then none
    else some (match args with
      | .bulk sub :: args =>
        let sub := upperWord sub
        if sub = txt "SETUSER" then aclSetuser argon acl args
        else if sub = txt "DELUSER" then aclDeluser acl args
        else if sub = txt "WHOAMI" then (aclWhoami session, acl)
        else if sub = txt "LIST" ∨ sub = txt "GETUSER" then (describe acl sub args, acl)
        else (.error (txt "ERR unknown ACL subcommand '" ++ sub ++ txt "'"), acl)
      | _ => (.error (txt "ERR wrong number of arguments for 'acl' command"), acl))
  | _ => none

end RocketMem
