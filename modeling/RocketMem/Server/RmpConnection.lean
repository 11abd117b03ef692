import Mathlib.Data.List.Perm.Basic
import RocketMem.Engine.Commands.Ranges
import RocketMem.Protocol.RmpProof
import RocketMem.Server.Connection
import RocketMem.Server.WriteProof

namespace RocketMem

open List

namespace Rmp

def maxInFlightRequestsPerConnection : Nat := 256

/-- The writer task: at `rx.recv`, at `sink.send` with a message, or ended, which drops the
receiving end of the channel. -/
inductive Writer where
  | receiving
  | sending (msg : RmpMessage)
  | ended

def Writer.held : Writer → List RmpMessage
  | .sending msg => [msg]
  | _ => []

/-- An RMP connection: the requests whose tasks are in `dispatch_and_log`, the responses whose
tasks are at `tx.send`, the channel between the tasks and the writer, and what has been executed
and written so far. -/
structure RmpConnection where
  running : List RmpMessage
  replying : List RmpMessage
  channel : List RmpMessage
  writer : Writer
  executed : List RmpMessage
  written : List RmpMessage

inductive RmpEvent where
  /-- The read loop has a request and a permit for it. -/
  | read (requestId : UInt64) (frame : Frame)
  /-- `dispatch_and_log` of a running task returns a reply, or panics. -/
  | execute (i : Nat) (outcome : Option Frame)
  | send (i : Nat)
  | receive
  | write

def RmpEvent.isRead : RmpEvent → Bool
  | .read _ _ => true
  | _ => false

def respond (request : RmpMessage) (reply : Frame) : RmpMessage :=
  ⟨request.requestId, .response, reply⟩

namespace RmpConnection

section

variable (c : RmpConnection)

def start : RmpConnection := ⟨[], [], [], .receiving, [], []⟩

def read (requestId : UInt64) (frame : Frame) : RmpConnection :=
  if c.running.length + c.replying.length < maxInFlightRequestsPerConnection then
    { c with running := c.running ++ [⟨requestId, .request, frame⟩] }
  else c

def execute (i : Nat) (outcome : Option Frame) : RmpConnection :=
  match c.running[i]? with
  | none => c
  | some request =>
    { c with
      running := c.running.eraseIdx i
      replying := c.replying ++ (outcome.map (respond request)).toList
      executed := c.executed ++ [request] }

/-- A task waits for room in the channel, and gives up its message without a receiver. -/
def send (i : Nat) : RmpConnection :=
  match c.replying[i]? with
  | none => c
  | some reply =>
    match c.writer with
    | .ended => { c with replying := c.replying.eraseIdx i }
    | _ =>
      if c.channel.length < maxInFlightRequestsPerConnection then
        { c with replying := c.replying.eraseIdx i, channel := c.channel ++ [reply] }
      else c

def receive : RmpConnection :=
  match c.writer, c.channel with
  | .receiving, msg :: rest => { c with writer := .sending msg, channel := rest }
  | _, _ => c

def write : RmpConnection :=
  match c.writer with
  | .sending msg =>
    match RmpCodec.encode msg with
    | .ok _ => { c with writer := .receiving, written := c.written ++ [msg] }
    | .error _ => { c with writer := .ended, channel := [] }
  | _ => c

def step : RmpEvent → RmpConnection
  | .read requestId frame => c.read requestId frame
  | .execute i outcome => c.execute i outcome
  | .send i => c.send i
  | .receive => c.receive
  | .write => c.write

def Settled : Prop := c.running = [] ∧ c.replying = [] ∧ c.channel = [] ∧ c.writer.held = []

def work : Nat :=
  4 * c.running.length + 3 * c.replying.length + 2 * c.channel.length + c.writer.held.length

def Answerable : RmpEvent → Prop
  | .execute i outcome => ∀ request, c.running[i]? = some request →
      ∃ reply bytes, outcome = some reply ∧ RmpCodec.encode (respond request reply) = .ok bytes
  | _ => True

def responses : List RmpMessage := c.written ++ c.writer.held ++ c.channel ++ c.replying

structure Serving : Prop where
  alive : c.writer ≠ .ended
  encodes : ∀ m ∈ c.responses, m.msgType = .response ∧ ∃ bytes, RmpCodec.encode m = .ok bytes
  ids : (c.responses.map RmpMessage.requestId).Perm (c.executed.map RmpMessage.requestId)

end

section

variable {c : RmpConnection} {e : RmpEvent} {i : Nat}

theorem Serving.of_perm {c' : RmpConnection} (h : c.Serving) (halive : c'.writer ≠ .ended)
    (hperm : c'.responses.Perm c.responses) (hexecuted : c'.executed = c.executed) :
    c'.Serving where
  alive := halive
  encodes := by
    intro m hm
    exact h.encodes m (hperm.mem_iff.mp hm)
  ids := by
    rw [hexecuted]
    exact (hperm.map _).trans h.ids

theorem Serving.execute (h : c.Serving) {outcome : Option Frame}
    (he : c.Answerable (.execute i outcome)) : (c.execute i outcome).Serving := by
  cases hi : c.running[i]? with
  | none => simpa only [RmpConnection.execute, hi] using h
  | some request =>
    obtain ⟨reply, bytes, rfl, hbytes⟩ := he request hi
    have hresponses : (c.execute i (some reply)).responses =
        c.responses ++ [respond request reply] := by
      simp only [RmpConnection.execute, hi, responses, Option.map_some, Option.toList_some,
        append_assoc]
    have hexecuted : (c.execute i (some reply)).executed = c.executed ++ [request] := by
      simp only [RmpConnection.execute, hi]
    have hwriter : (c.execute i (some reply)).writer = c.writer := by
      simp only [RmpConnection.execute, hi]
    constructor
    · rw [hwriter]
      exact h.alive
    · intro m hm
      rw [hresponses, mem_append, mem_singleton] at hm
      obtain hm | rfl := hm
      · exact h.encodes m hm
      · exact ⟨rfl, bytes, hbytes⟩
    · rw [hresponses, hexecuted, map_append, map_append]
      exact h.ids.append_right _

theorem send_cases (halive : c.writer ≠ .ended) :
    c.send i = c ∨ ∃ reply, c.replying[i]? = some reply ∧
      c.send i = { c with
        replying := c.replying.eraseIdx i
        channel := c.channel ++ [reply] } := by
  cases hi : c.replying[i]? with
  | none =>
    left
    simp only [send, hi]
  | some reply =>
    by_cases hroom : c.channel.length < maxInFlightRequestsPerConnection
    · right
      refine ⟨reply, rfl, ?_⟩
      cases hw : c.writer with
      | ended => exact absurd hw halive
      | _ => simp only [send, hi, hw, if_pos hroom]
    · left
      cases hw : c.writer with
      | ended => exact absurd hw halive
      | _ => simp only [send, hi, hw, if_neg hroom]

theorem eraseIdx_perm {l : List RmpMessage} {x : RmpMessage} (h : l[i]? = some x) :
    l.Perm (x :: l.eraseIdx i) := by
  obtain ⟨hi, rfl⟩ := List.getElem?_eq_some_iff.mp h
  exact (List.getElem_cons_eraseIdx_perm hi).symm

theorem Serving.send (h : c.Serving) (i : Nat) : (c.send i).Serving := by
  obtain hsame | ⟨reply, hi, hsend⟩ := send_cases (i := i) h.alive
  · rwa [hsame]
  · rw [hsend]
    refine h.of_perm h.alive ?_ rfl
    simp only [responses, append_assoc]
    have hreplies := (eraseIdx_perm hi).symm
    exact ((hreplies.append_left c.channel).append_left c.writer.held).append_left c.written

theorem receive_cases :
    c.receive = c ∨ ∃ msg rest, c.writer = .receiving ∧ c.channel = msg :: rest ∧
      c.receive = { c with writer := .sending msg, channel := rest } := by
  cases hw : c.writer with
  | receiving =>
    cases hchannel : c.channel with
    | nil =>
      left
      simp only [receive, hw, hchannel]
    | cons msg rest =>
      right
      refine ⟨msg, rest, rfl, rfl, ?_⟩
      simp only [receive, hw, hchannel]
  | _ =>
    left
    simp only [receive, hw]

theorem Serving.receive (h : c.Serving) : c.receive.Serving := by
  obtain hsame | ⟨msg, rest, hw, hchannel, hreceive⟩ := receive_cases (c := c)
  · rwa [hsame]
  · rw [hreceive]
    refine h.of_perm Writer.noConfusion ?_ rfl
    simp [responses, Writer.held, hw, hchannel]

theorem Serving.write_sending (h : c.Serving) {msg : RmpMessage} (hw : c.writer = .sending msg) :
    c.write = { c with writer := .receiving, written := c.written ++ [msg] } := by
  have hheld : msg ∈ c.responses := by
    simp [responses, hw, Writer.held]
  obtain ⟨-, bytes, hbytes⟩ := h.encodes msg hheld
  simp only [RmpConnection.write, hw, hbytes]

theorem write_idle (hw : c.writer.held = []) : c.write = c := by
  cases hwriter : c.writer with
  | sending msg =>
    rw [hwriter] at hw
    cases hw
  | _ => simp only [write, hwriter]

theorem Serving.write (h : c.Serving) : c.write.Serving := by
  cases hw : c.writer with
  | sending msg =>
    rw [h.write_sending hw]
    refine h.of_perm Writer.noConfusion ?_ rfl
    simp [responses, Writer.held, hw]
  | _ => rwa [write_idle (by rw [hw]; rfl)]

theorem Serving.read (h : c.Serving) (requestId : UInt64) (frame : Frame) :
    (c.read requestId frame).Serving := by
  unfold RmpConnection.read
  split_ifs
  · exact ⟨h.alive, h.encodes, h.ids⟩
  · exact h

theorem Serving.step (h : c.Serving) (he : c.Answerable e) : (c.step e).Serving := by
  cases e with
  | read requestId frame => exact h.read requestId frame
  | execute i outcome => exact h.execute he
  | send i => exact h.send i
  | receive => exact h.receive
  | write => exact h.write

theorem serving_start : start.Serving where
  alive := Writer.noConfusion
  encodes := by
    intro m hm
    cases hm
  ids := .nil

theorem serving_of_runs (h : RunsTo step Answerable start c) : c.Serving :=
  h.invariant serving_start fun _ _ he hc => hc.step he

theorem Serving.written_of_settled (h : c.Serving) (hsettled : c.Settled) :
    (∀ m ∈ c.written, m.msgType = .response) ∧
      (c.written.map RmpMessage.requestId).Perm (c.executed.map RmpMessage.requestId) := by
  obtain ⟨-, hreplying, hchannel, hheld⟩ := hsettled
  have hresponses : c.responses = c.written := by
    simp [responses, hreplying, hchannel, hheld]
  constructor
  · intro m hm
    exact (h.encodes m (hresponses.symm ▸ hm)).1
  · rw [← hresponses]
    exact h.ids

end

section

variable {c : RmpConnection} {e : RmpEvent} {i : Nat}

theorem work_execute (c : RmpConnection) {request : RmpMessage}
    (hi : c.running[i]? = some request) (outcome : Option Frame) :
    (c.execute i outcome).work < c.work := by
  obtain ⟨hlt, -⟩ := List.getElem?_eq_some_iff.mp hi
  have hlength : (outcome.map (respond request)).toList.length ≤ 1 := by
    cases outcome <;> simp
  simp only [execute, hi, work, length_append, length_eraseIdx_of_lt hlt]
  omega

theorem work_send (hw : c.writer ≠ .ended) {reply : RmpMessage}
    (hi : c.replying[i]? = some reply)
    (hroom : c.channel.length < maxInFlightRequestsPerConnection) : (c.send i).work < c.work := by
  obtain ⟨hlt, -⟩ := List.getElem?_eq_some_iff.mp hi
  cases hwriter : c.writer with
  | ended => exact absurd hwriter hw
  | _ =>
    simp only [send, hi, hwriter, if_pos hroom, work, length_append, length_singleton,
      length_eraseIdx_of_lt hlt]
    omega

theorem work_receive {msg : RmpMessage} {rest : List RmpMessage} (hw : c.writer = .receiving)
    (hchannel : c.channel = msg :: rest) : c.receive.work < c.work := by
  simp only [receive, hw, hchannel, work, Writer.held, length_cons, length_nil]
  omega

theorem Serving.work_write (h : c.Serving) {msg : RmpMessage} (hw : c.writer = .sending msg) :
    c.write.work < c.work := by
  rw [h.write_sending hw]
  simp only [work, hw, Writer.held, length_cons, length_nil]
  omega

theorem Serving.work_step (h : c.Serving) (he : e.isRead = false) :
    c.step e = c ∨ (c.step e).work < c.work := by
  cases e with
  | read requestId frame => cases he
  | execute i outcome =>
    cases hi : c.running[i]? with
    | none =>
      left
      simp only [RmpConnection.step, RmpConnection.execute, hi]
    | some request => exact .inr (work_execute c hi outcome)
  | send i =>
    by_cases hroom : c.channel.length < maxInFlightRequestsPerConnection
    · cases hi : c.replying[i]? with
      | none =>
        left
        simp only [RmpConnection.step, RmpConnection.send, hi]
      | some reply => exact .inr (work_send h.alive hi hroom)
    · left
      obtain hsame | ⟨reply, hi, -⟩ := send_cases (i := i) h.alive
      · exact hsame
      · cases hw : c.writer with
        | ended => exact absurd hw h.alive
        | _ => simp only [RmpConnection.step, RmpConnection.send, hi, hw, if_neg hroom]
  | receive =>
    obtain hsame | ⟨msg, rest, hw, hchannel, -⟩ := receive_cases (c := c)
    · exact .inl hsame
    · exact .inr (work_receive hw hchannel)
  | write =>
    cases hw : c.writer with
    | sending msg => exact .inr (h.work_write hw)
    | _ => exact .inl (write_idle (by rw [hw]; rfl))

theorem encode_ok_reply (request : RmpMessage) :
    ∃ bytes, RmpCodec.encode (respond request okReply) = .ok bytes :=
  ⟨_, rfl⟩

theorem Serving.work_goes_on (h : c.Serving) (hsettled : ¬ c.Settled) :
    ∃ e : RmpEvent, e.isRead = false ∧ c.Answerable e ∧ (c.step e).work < c.work := by
  cases hw : c.writer with
  | ended => exact absurd hw h.alive
  | sending msg => exact ⟨.write, rfl, trivial, h.work_write hw⟩
  | receiving =>
    cases hchannel : c.channel with
    | cons msg rest => exact ⟨.receive, rfl, trivial, work_receive hw hchannel⟩
    | nil =>
      cases hreplying : c.replying with
      | cons reply rest =>
        have hi : c.replying[0]? = some reply := by rw [hreplying]; rfl
        have hroom : c.channel.length < maxInFlightRequestsPerConnection := by
          rw [hchannel]
          decide
        exact ⟨.send 0, rfl, trivial, work_send h.alive hi hroom⟩
      | nil =>
        cases hrunning : c.running with
        | cons request rest =>
          have hi : c.running[0]? = some request := by rw [hrunning]; rfl
          refine ⟨.execute 0 (some okReply), rfl, ?_, work_execute c hi _⟩
          intro r _
          obtain ⟨bytes, hbytes⟩ := encode_ok_reply r
          exact ⟨okReply, bytes, rfl, hbytes⟩
        | nil =>
          have hheld : c.writer.held = [] := by rw [hw]; rfl
          exact absurd ⟨hrunning, hreplying, hchannel, hheld⟩ hsettled

end

/-- If every `dispatch_and_log` returns a reply that the codec can encode, then at rest the
responses written are one for each request executed, by their ids. Until then every step but a read
brings the rest closer, and there is always one to take. -/
theorem executed_requests_answered {c : RmpConnection} (h : RunsTo step Answerable start c) :
    (c.Settled → (∀ m ∈ c.written, m.msgType = .response) ∧
      (c.written.map RmpMessage.requestId).Perm (c.executed.map RmpMessage.requestId)) ∧
    (∀ e : RmpEvent, e.isRead = false → c.step e = c ∨ (c.step e).work < c.work) ∧
    (¬ c.Settled →
      ∃ e : RmpEvent, e.isRead = false ∧ c.Answerable e ∧ (c.step e).work < c.work) := by
  have hserving := serving_of_runs h
  refine ⟨hserving.written_of_settled, ?_, hserving.work_goes_on⟩
  intro e he
  exact hserving.work_step he

def overtaking : List RmpEvent :=
  [.read 7 pingFrame, .read 9 pingFrame, .execute 1 (some okReply), .send 0,
    .execute 0 (some pongReply), .receive, .write, .send 0, .receive, .write]

theorem executed_requests_answered_overtaking :
    ∃ c, RunsTo step Answerable start c ∧ c.Settled ∧
      c.written.map RmpMessage.requestId = [9, 7] ∧
      (c.written.map RmpMessage.requestId).Perm (c.executed.map RmpMessage.requestId) := by
  have hrun : EachStep step Answerable start overtaking := by
    refine ⟨trivial, trivial, ?_, trivial, ?_, trivial, trivial, trivial, trivial, trivial, trivial⟩
    · rintro request -
      exact ⟨okReply, _, rfl, rfl⟩
    · rintro request -
      exact ⟨pongReply, _, rfl, rfl⟩
  have hruns := RunsTo.start.of_eachStep hrun
  have hsettled : (overtaking.foldl step start).Settled := ⟨rfl, rfl, rfl, rfl⟩
  exact ⟨_, hruns, hsettled, rfl, ((executed_requests_answered hruns).1 hsettled).2⟩

theorem encode_large {value : Bytes} (hvalue : maxRmpFrameLen ≤ value.length)
    (requestId : UInt64) :
    RmpCodec.encode ⟨requestId, .response, .bulk value⟩ =
      .error (txt "rmp payload exceeds MAX_RMP_FRAME_LEN") := by
  have hlong : maxRmpFrameLen < (putSlice 0x04 value).length := by
    rw [putSlice, length_cons, length_append]
    omega
  have hframe : encodeFrame (.bulk value) = .ok (putSlice 0x04 value) := by
    rw [encodeFrame]
  simp only [RmpCodec.encode, hframe, Except.bind, if_pos hlong]

theorem write_fails {c : RmpConnection} {msg : RmpMessage} {e : Bytes}
    (hw : c.writer = .sending msg) (he : RmpCodec.encode msg = .error e) :
    c.write = { c with writer := .ended, channel := [] } := by
  simp only [write, hw, he]

def getRequest : Frame := .command [txt "GET", txt "k"]

def stringStore (value : Bytes) : Store Score := Store.new.set (txt "k") (.string value)

theorem dispatch_getRequest (value : Bytes) :
    (runEngine Env.still (dispatch Env.still getRequest) (stringStore value)).1 =
      some (.bulk value) := by
  have hlive : (stringStore value).live Env.still.clock (txt "k") =
      some (.string value, none) := by
    have hset := (KeyOp.exec_live .zero (txt "k") (Store.new : Store Score)
      (.set (.string value))).2
    exact (congrFun hset (txt "k")).trans (Function.update_self _ _ _)
  have hget : dispatch Env.still getRequest =
      (replyWith bulkOrNull <$> getString (txt "k") : EngineProgram Score Frame) := by
    have hname : commandName (txt "GET") = some .get := by decide
    exact dispatch_command hname [txt "k"]
  have hcalls : (replyWith bulkOrNull <$> getString (txt "k") :
      EngineProgram Score Frame).Calls (EngineOp.On (· = txt "k")) := .call rfl fun _ => .ret _
  rw [hget, (runEngine_live hcalls _ _).1, runKeyspace_map, getString, runKeyspace_bind,
    runKeyspace_get, hlive]
  rfl

theorem dispatch_pingFrame (st : Store Score) :
    (runEngine Env.still (dispatch Env.still pingFrame) st).1 = some pongReply := by
  have hname : commandName (txt "PING") = some .ping := by decide
  rw [pingFrame, dispatch_command hname]
  rfl

def largeInHand (value : Bytes) : RmpConnection :=
  ⟨[], [], [], .sending ⟨1, .response, .bulk value⟩, [⟨1, .request, getRequest⟩], []⟩

def silenced (value : Bytes) : List RmpEvent :=
  [.read 1 getRequest, .execute 0 (some (.bulk value)), .send 0, .receive, .write,
    .read 2 pingFrame, .execute 0 (some pongReply), .send 0]

/-- A reply of more than 64 MiB: neither its request nor any later one is answered. -/
theorem large_reply_silences :
    ∃ value : Bytes, ∃ c : RmpConnection,
      (runEngine Env.still (dispatch Env.still getRequest)
        (stringStore value)).1 = some (.bulk value) ∧
      (runEngine Env.still (dispatch Env.still pingFrame) (stringStore value)).1 = some pongReply ∧
      (silenced value).foldl step start = c ∧ c.Settled ∧
      c.executed.map RmpMessage.requestId = [1, 2] ∧ c.written = [] := by
  obtain ⟨value, hvalue⟩ : ∃ value : Bytes, value.length = maxRmpFrameLen :=
    ⟨List.replicate maxRmpFrameLen 0, length_replicate⟩
  have hencode := encode_large (Nat.le_of_eq hvalue.symm) 1
  have hsending : [RmpEvent.read 1 getRequest, .execute 0 (some (.bulk value)), .send 0,
      .receive].foldl step start = largeInHand value := rfl
  have hended : (largeInHand value).step .write =
      ⟨[], [], [], .ended, [⟨1, .request, getRequest⟩], []⟩ :=
    write_fails (c := largeInHand value) rfl hencode
  refine ⟨value, _, dispatch_getRequest value, dispatch_pingFrame _, rfl, ?_⟩
  have hrest : (silenced value).foldl step start =
      [RmpEvent.read 2 pingFrame, .execute 0 (some pongReply), .send 0].foldl step
        ⟨[], [], [], .ended, [⟨1, .request, getRequest⟩], []⟩ := by
    have hsplit : silenced value = [.read 1 getRequest, .execute 0 (some (.bulk value)), .send 0,
        .receive] ++ .write :: [.read 2 pingFrame, .execute 0 (some pongReply), .send 0] := rfl
    rw [hsplit, foldl_append, hsending, foldl_cons, hended]
  rw [hrest]
  exact ⟨⟨rfl, rfl, rfl, rfl⟩, rfl, rfl⟩

end RmpConnection

end Rmp

end RocketMem
