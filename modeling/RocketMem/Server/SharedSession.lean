import RocketMem.Server.Transactions

namespace RocketMem

/-- The atomic steps of a request of an RMP connection, as far as the transaction of the session
that its requests share is concerned. `enter` is the start of the request's task, with the gates
before the interception; `gated` is a run of `dispatch_and_log_gated`, of the request's own frame
or, in `EXEC`, of a queued one; `leave` is the reply, after the refusal the request met if any. -/
inductive TxOp where
  | enter (frame : Frame)
  | lock
  | unlock
  | read
  | open
  | close
  | write (commands : List Frame) (dirty : Bool)
  | store (flag : Bool)
  | load
  | gated (own : Bool) (frame : Frame)
  | leave (frame : Frame) (refusal : Option Frame) (reply : Frame)

namespace TxOp

abbrev Ret : TxOp → Type
  | enter _ | gated _ _ => Option Frame
  | read => TransactionState
  | load => Bool
  | _ => Unit

end TxOp

abbrev TxProgram (α : Type) := Program TxOp TxOp.Ret α

/-- The transaction of a session in the places it is kept, the state behind its mutex and the flag
beside it. What follows is history: the requests that are being processed, those of them that are an
`EXEC` or a `DISCARD`, and those that have closed the transaction and not cleared the flag yet; the
request that opened the transaction, and whether it has been answered; and the requests that have
been issued in an acknowledged transaction with none outstanding that would end it. -/
structure SharedTx where
  tx : TransactionState
  flag : Bool
  holder : Option Nat
  inFlight : Finset Nat
  ending : Finset Nat
  clearing : Finset Nat
  opener : Option Nat
  acknowledged : Bool
  promised : Finset Nat

/-- What a step meets: the gates' refusal, and the reply of the gated path, unless it panics. -/
structure TxCircumstances where
  refusal : Option Frame
  reply : Option Frame

def endsTransaction (frame : Frame) : Bool :=
  decide (commandNameUpper frame = some (txt "EXEC") ∨
    commandNameUpper frame = some (txt "DISCARD"))

def isOrdinary (frame : Frame) : Bool :=
  (commandNameUpper frame).any fun name =>
    decide (name ∉ [txt "MULTI", txt "DISCARD", txt "EXEC"])

namespace SharedTx

def start : SharedTx := ⟨.idle, false, none, ∅, ∅, ∅, none, false, ∅⟩

def enter (s : SharedTx) (i : Nat) (frame : Frame) : SharedTx :=
  if endsTransaction frame then
    { s with inFlight := insert i s.inFlight, ending := insert i s.ending, promised := ∅ }
  else if isOrdinary frame ∧ s.tx.isQueuing ∧ s.acknowledged ∧ s.ending = ∅ then
    { s with inFlight := insert i s.inFlight, promised := insert i s.promised }
  else { s with inFlight := insert i s.inFlight }

def depart (s : SharedTx) (i : Nat) : SharedTx :=
  { s with inFlight := s.inFlight.erase i, ending := s.ending.erase i,
           promised := s.promised.erase i }

def leave (s : SharedTx) (i : Nat) : SharedTx :=
  { s.depart i with acknowledged := s.acknowledged || decide (s.opener = some i) }

def exec (i : Nat) (x : TxCircumstances) : (o : TxOp) → SharedTx → Option (o.Ret × SharedTx)
  | .enter frame, s => some (x.refusal, s.enter i frame)
  | .lock, s => if s.holder = none then some ((), { s with holder := some i }) else none
  | .unlock, s => some ((), { s with holder := none })
  | .read, s => some (s.tx, s)
  | .open, s =>
    some ((), { s with tx := .queuing [] false, opener := some i, acknowledged := false })
  | .close, s => some ((), { s with tx := .idle, clearing := insert i s.clearing })
  | .write commands dirty, s => some ((), { s with tx := .queuing commands dirty })
  | .store flag, s =>
    some ((), { s with flag := flag, clearing := if flag then s.clearing else s.clearing.erase i })
  | .load, s => some (s.flag, s)
  | .gated _ _, s => some (x.reply, s)
  | .leave _ _ _, s => some ((), s.leave i)

end SharedTx

def txMachine : Machine TxOp TxOp.Ret TxCircumstances SharedTx where
  exec := SharedTx.exec
  unwind i s := s.depart i

namespace TxProgram

def perform (o : TxOp) : TxProgram o.Ret := Program.perform o

def gated (own : Bool) (frame : Frame) : TxProgram Frame := do
  match ← perform (.gated own frame) with
  | some reply => return reply
  | none => .halt

/-- `handle_multi`: the flag is stored under the lock. -/
def handleMulti : TxProgram Frame := do
  perform .lock
  let state ← perform .read
  if state.isQueuing then
    perform .unlock
    return .error (txt "ERR MULTI calls can not be nested")
  perform .open
  perform (.store true)
  perform .unlock
  return okReply

/-- Closing the transaction under the lock, as `DISCARD` does and `EXEC` of a spoiled queue. -/
def closeUnderLock (reply : Frame) : TxProgram Frame := do
  perform .close
  perform (.store false)
  perform .unlock
  return reply

def handleDiscard : TxProgram Frame := do
  perform .lock
  match ← perform .read with
  | .idle => do
    perform .unlock
    return .error (txt "ERR DISCARD without MULTI")
  | .queuing _ _ => closeUnderLock okReply

def runQueue : List Frame → TxProgram (List Frame)
  | [] => return []
  | frame :: frames => do
    let reply ← gated false frame
    let replies ← runQueue frames
    return reply :: replies

/-- `handle_exec`: of a clean queue the flag is stored when the lock has been released. -/
def handleExec : TxProgram Frame := do
  perform .lock
  match ← perform .read with
  | .idle => do
    perform .unlock
    return .error (txt "ERR EXEC without MULTI")
  | .queuing _ true => closeUnderLock execAborted
  | .queuing commands false => do
    perform .close
    perform .unlock
    perform (.store false)
    let replies ← runQueue commands
    return .array replies

end TxProgram

def queueAnswer (commands : List Frame) (dirty : Bool) (name : Bytes) (frame : Frame) :
    Frame × List Frame × Bool :=
  if name ∈ unqueueable then
    (.error (txt "ERR " ++ name ++ txt " is not allowed in transactions"), commands, true)
  else if name ∈ CommandName.known.map CommandName.text then
    (queuedReply, commands ++ [frame], dirty)
  else (.error (txt "ERR unknown command '" ++ name ++ txt "'"), commands, true)

def queueReply (frame : Frame) : Option Frame :=
  (commandNameUpper frame).map fun name => (queueAnswer [] false name frame).1

namespace TxProgram

def queueCommand (name : Bytes) (frame : Frame) : TxProgram Frame := do
  if !(← perform .load) then gated true frame
  else
    perform .lock
    match ← perform .read with
    | .idle => do
      perform .unlock
      gated true frame
    | .queuing commands dirty => do
      let answer := queueAnswer commands dirty name frame
      perform (.write answer.2.1 answer.2.2)
      perform .unlock
      return answer.1

def intercept (frame : Frame) : TxProgram Frame :=
  match commandNameUpper frame with
  | none => gated true frame
  | some name =>
    if name = txt "MULTI" then handleMulti
    else if name = txt "DISCARD" then handleDiscard
    else if name = txt "EXEC" then handleExec
    else queueCommand name frame

def request (frame : Frame) : TxProgram Frame := do
  match ← perform (.enter frame) with
  | some reply => do
    perform (.leave frame (some reply) reply)
    return reply
  | none => do
    let reply ← intercept frame
    perform (.leave frame none reply)
    return reply

end TxProgram

end RocketMem
