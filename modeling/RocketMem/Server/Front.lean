import RocketMem.Server.Session

namespace RocketMem

/-- What a session's commands run against behind the gates on the session itself: `refuse` is the
cluster redirect, the `READONLY` gate and the fencing gate, `perform` every command and
interception that concerns neither users nor the session. -/
structure Backend (σ : Type) where
  argon : Argon2
  clientId : UInt64
  role : σ → Bytes
  mode : σ → Bytes
  describe : AclStore → Bytes → List Frame → Frame
  refuse : σ → Frame → Option Frame
  perform : σ → Frame → Frame × σ

structure Front (σ : Type) where
  acl : AclStore
  session : Session
  rest : σ

namespace Front

variable {σ : Type} (b : Backend σ)

def dispatchAndLogGated (w : Front σ) (frame : Frame) : Frame × Front σ :=
  match b.refuse w.rest frame with
  | some reply => (reply, w)
  | none =>
    match handleAuth b.argon w.acl w.session frame with
    | some (reply, session) => (reply, { w with session := session })
    | none =>
      match handleAcl b.argon b.describe w.acl w.session frame with
      | some (reply, acl) => (reply, { w with acl := acl })
      | none =>
        match handleHello b.argon w.acl w.session b.clientId (b.role w.rest) (b.mode w.rest) frame with
        | some (reply, session) => (reply, { w with session := session })
        | none =>
          let r := b.perform w.rest frame
          (r.1, { w with rest := r.2 })

def runQueued : Front σ → List Frame → List (Frame × Frame) × Front σ
  | w, [] => ([], w)
  | w, frame :: frames =>
    let r := w.dispatchAndLogGated b frame
    let rest := runQueued r.2 frames
    ((frame, r.1) :: rest.1, rest.2)

def executes (w : Front σ) : List (Frame × Frame) :=
  match takeQueue w.session with
  | (.ok commands, session) => (runQueued b { w with session := session } commands).1
  | (.error _, _) => []

def handleExec (w : Front σ) : Frame × Front σ :=
  match takeQueue w.session with
  | (.error e, session) => (e, { w with session := session })
  | (.ok commands, session) =>
    let r := runQueued b { w with session := session } commands
    (.array (r.1.map Prod.snd), r.2)

def dispatchAndLogInner (w : Front σ) (frame : Frame) : Frame × Front σ :=
  match authGate w.acl w.session frame with
  | some reply => (reply, w)
  | none =>
    match subscribeModeGate w.session frame with
    | some reply => (reply, w)
    | none =>
      match interceptForTransaction w.session frame with
      | .answered reply session => (reply, { w with session := session })
      | .exec => w.handleExec b
      | .proceed => w.dispatchAndLogGated b frame

/-- The session's user, as stored now, is there, enabled and allowed the command on its keys. -/
def Authorized (w : Front σ) (frame : Frame) : Prop :=
  ∃ cached user name, w.session.authenticatedUser = some cached ∧
    w.acl.getUser cached.username = some user ∧ user.enabled = true ∧
    commandNameUpper frame = some name ∧ user.isAllowed name (commandKeys frame) = true

def Denied (reply : Frame) : Prop := reply = noAuth ∨ reply = noPermKey ∨ reply = noPermCommand

/-- If the frame is an `EXEC` that gets through to the queue, every command it runs is one the
session's user is allowed now. -/
def PermissionsEnforced (w : Front σ) (frame : Frame) : Prop :=
  commandNameUpper frame = some (txt "EXEC") → authGate w.acl w.session frame = none →
    subscribeModeGate w.session frame = none →
    ∀ run ∈ w.executes b, ¬ Denied run.2 → w.Authorized run.1

end Front

end RocketMem
