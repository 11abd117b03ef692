import RocketMem.Server.Abort
import RocketMem.Server.Standing

namespace RocketMem

variable {F : Type} [F64 F]

def TransactionState.isQueuing : TransactionState → Bool
  | .idle => false
  | .queuing _ _ => true

def Session.closed (session : Session) : Session :=
  { session with tx := .idle, inTransaction := false }

def Session.start (rmp : Bool) : Session := if rmp then .newForRmp else .new

namespace Served

theorem runQueued_standing (xs : Nat → Surroundings F) (w : Served F) (frames : List Frame) :
    (w.runQueued xs frames).after.session.standing = w.session.standing := by
  induction frames generalizing xs w with
  | nil => rfl
  | cons frame frames ih =>
    have hfirst := dispatchAndLogGated_standing (xs 0) w frame
    unfold runQueued
    dsimp only
    split
    · exact hfirst
    · exact (ih _ _).trans hfirst

theorem runQueued_get {xs : Nat → Surroundings F} {w : Served F} {frames replies : List Frame}
    (h : (w.runQueued xs frames).result = some replies) :
    replies.length = frames.length ∧ ∀ i frame, frames[i]? = some frame →
      ((w.runQueued xs (frames.take i)).after.dispatchAndLogGated (xs i) frame).result =
          replies[i]? ∧
        ((w.runQueued xs (frames.take i)).after.dispatchAndLogGated (xs i) frame).after =
          (w.runQueued xs (frames.take (i + 1))).after := by
  induction frames generalizing xs w replies with
  | nil =>
    obtain rfl := Option.some.inj h
    exact ⟨rfl, fun i frame hi => by cases hi⟩
  | cons first frames ih =>
    have hcons (rest : List Frame) {reply : Frame}
        (hreply : (w.dispatchAndLogGated (xs 0) first).result = some reply) :
        w.runQueued xs (first :: rest) =
          let o := w.dispatchAndLogGated (xs 0) first
          let r := o.after.runQueued (fun n => xs (n + 1)) rest
          ⟨r.result.map (reply :: ·), r.after, o.touched ++ r.touched⟩ := by
      rw [runQueued]
      simp only [hreply]
    cases hreply : (w.dispatchAndLogGated (xs 0) first).result with
    | none =>
      rw [runQueued] at h
      simp only [hreply] at h
      cases h
    | some reply =>
      rw [hcons frames hreply] at h
      obtain ⟨rest, hrest, rfl⟩ := Option.map_eq_some_iff.mp h
      obtain ⟨hlength, hget⟩ := ih hrest
      refine ⟨congrArg (· + 1) hlength, fun i frame hi => ?_⟩
      cases i with
      | zero =>
        obtain rfl := Option.some.inj hi
        refine ⟨hreply, ?_⟩
        rw [List.take_succ_cons, hcons _ hreply]
        rfl
      | succ i =>
        rw [List.take_succ_cons, List.take_succ_cons, hcons _ hreply, hcons _ hreply]
        exact hget i frame hi

end Served

namespace Arrival

variable {t : Arrival F} {session : Session}

/-- What a frame can do while nothing but the commands of a transaction is at stake. -/
inductive Does (t : Arrival F) (session : Session) : Outcome F Answer → Prop
  /-- The connection, a gate or the state of the transaction turns the frame away. -/
  | refuses (a : Answer) (ha : a = .handoff ∨ ∃ e, a = .reply (.error e)) :
      Does t session ⟨some a, { t.server with session := session }, []⟩
  | opens (hname : commandNameUpper t.frame = some (txt "MULTI")) (hidle : session.tx = .idle) :
      Does t session (t.answer okReply (session.opened [] false))
  | queues {commands : List Frame} {dirty : Bool} (hq : session.tx = .queuing commands dirty) :
      Does t session (t.answer queuedReply (session.opened (commands ++ [t.frame]) dirty))
  | spoils {commands : List Frame} {dirty : Bool} (hq : session.tx = .queuing commands dirty)
      (e : Bytes) : Does t session (t.answer (.error e) (session.opened commands true))
  | ends (reply : Frame) (hname : commandNameUpper t.frame ≠ some (txt "MULTI")) :
      Does t session (t.answer reply session.closed)
  | runs (hname : commandNameUpper t.frame = some (txt "EXEC")) {commands : List Frame}
      (hq : session.tx = .queuing commands false) :
      Does t session (Served.handleExec t.xs { t.server with session := session }).answered
  /-- Outside of a transaction the frame is dispatched. -/
  | passes (hidle : session.tx = .idle) (hname : commandNameUpper t.frame ≠ some (txt "MULTI"))
      {o : Outcome F Answer} (hs : o.after.session.standing = session.standing) :
      Does t session o

theorem outcome_received (t : Arrival F) (session : Session) :
    (∃ a, (a = .handoff ∨ ∃ e, a = .reply (.error e)) ∧
        t.outcome session = ⟨some a, { t.server with session := session }, []⟩) ∨
      t.outcome session =
        (Served.dispatchAndLog t.xs { t.server with session := session } t.frame).answered := by
  by_cases hrmp : session.isRmp = true
  · exact .inr (if_pos hrmp)
  · by_cases hpsync : isPsyncCommand t.frame = true
    · left
      simp only [outcome, Served.receive, if_neg hrmp, if_pos hpsync]
      cases hauth : authGate t.server.acl session t.frame with
      | some reply =>
        obtain ⟨e, rfl⟩ := authGate_error hauth
        exact ⟨_, .inr ⟨e, rfl⟩, rfl⟩
      | none =>
        refine ⟨_, ?_, rfl⟩
        split
        · exact .inr ⟨_, rfl⟩
        · exact .inl rfl
    · simp only [outcome, Served.receive, if_neg hrmp, if_neg hpsync]
      cases htimeout : blockingTimeout F t.frame with
      | none => exact .inr rfl
      | some timeout =>
        cases timeout with
        | ok secs => exact .inr rfl
        | error reply =>
          obtain ⟨e, rfl⟩ := blockingTimeout_error htimeout
          exact .inl ⟨_, .inr ⟨e, rfl⟩, rfl⟩

theorem subscribeModeGate_error {frame reply : Frame}
    (h : subscribeModeGate session frame = some reply) : ∃ e, reply = .error e := by
  unfold subscribeModeGate at h
  split_ifs at h
  split at h
  · cases h
  · split_ifs at h
    exact ⟨_, (Option.some.inj h).symm⟩

/-- The frame is dispatched: it has come to `dispatch_and_log`. -/
abbrev dispatched (t : Arrival F) (session : Session) : Outcome F Answer :=
  (Served.dispatchAndLog t.xs { t.server with session := session } t.frame).answered

section

variable (hpass : Served.Passes { t.server with session := session } t.frame)

include hpass

theorem dispatched_of_answered {reply : Frame} {session' : Session}
    (h : interceptForTransaction session t.frame = .answered reply session') :
    t.dispatched session = t.answer reply session' := by
  rw [dispatched, Served.dispatchAndLog_of_answered hpass h]
  rfl

theorem does_multi (hname : commandNameUpper t.frame = some (txt "MULTI")) :
    t.Does session (t.dispatched session) := by
  have hmulti : interceptForTransaction session t.frame =
      .answered (handleMulti session).1 (handleMulti session).2 := by
    rw [interceptForTransaction, hname]
    rfl
  rw [dispatched_of_answered hpass hmulti]
  unfold handleMulti
  split
  · exact .refuses _ (.inr ⟨_, rfl⟩)
  · next hidle => exact .opens hname hidle

theorem does_discard (hname : commandNameUpper t.frame = some (txt "DISCARD")) :
    t.Does session (t.dispatched session) := by
  have hdiscard : interceptForTransaction session t.frame =
      .answered (handleDiscard session).1 (handleDiscard session).2 := by
    rw [interceptForTransaction, hname]
    rfl
  rw [dispatched_of_answered hpass hdiscard]
  unfold handleDiscard
  split
  · exact .refuses _ (.inr ⟨_, rfl⟩)
  · exact .ends okReply (by rw [hname]; decide)

theorem does_exec (hname : commandNameUpper t.frame = some (txt "EXEC")) :
    t.Does session (t.dispatched session) := by
  have hexec : interceptForTransaction session t.frame = .exec := by
    rw [interceptForTransaction, hname]
    rfl
  rw [dispatched, Served.dispatchAndLog_of_exec hpass hexec]
  cases htx : session.tx with
  | idle =>
    have htake : takeQueue session =
        (.error (.error (txt "ERR EXEC without MULTI")), session) := by rw [takeQueue, htx]
    simp only [Served.handleExec, htake]
    exact .refuses _ (.inr ⟨_, rfl⟩)
  | queuing commands dirty =>
    cases dirty with
    | true =>
      have htake : takeQueue session = (.error execAborted, session.closed) := by
        rw [takeQueue, htx]
        rfl
      simp only [Served.handleExec, htake]
      exact .ends execAborted (by rw [hname]; decide)
    | false => exact .runs hname htx

theorem does_proceed (hproceed : interceptForTransaction session t.frame = .proceed)
    (hidle : session.tx = .idle) (hnot : commandNameUpper t.frame ≠ some (txt "MULTI")) :
    t.Does session (t.dispatched session) := by
  rw [dispatched, Served.dispatchAndLog_of_proceed hpass hproceed]
  exact .passes hidle hnot (Served.dispatchAndLogGated_standing (t.xs 0) _ t.frame)

/-- Any other command is queued in a transaction, and goes on outside of one. -/
theorem does_other {name : Bytes} (hflag : session.inTransaction = session.tx.isQueuing)
    (hname : commandNameUpper t.frame = some name) (hmulti : name ≠ txt "MULTI")
    (hdiscard : name ≠ txt "DISCARD") (hexec : name ≠ txt "EXEC") :
    t.Does session (t.dispatched session) := by
  cases htx : session.tx with
  | idle =>
    have hoff : session.inTransaction = false := by rw [hflag, htx]; rfl
    refine does_proceed hpass ?_ htx fun h => hmulti (Option.some.inj (hname.symm.trans h))
    rw [interceptForTransaction, hname]
    dsimp only
    rw [if_neg hmulti, if_neg hdiscard, if_neg hexec, if_pos hoff]
  | queuing commands dirty =>
    have hon : session.inTransaction = true := by rw [hflag, htx]; rfl
    have hopened : session.opened commands dirty = session := by
      rw [Session.opened, ← htx, ← hon]
    have hqueue : interceptForTransaction session t.frame =
        .answered (queueCommand session commands dirty name t.frame).1
          (queueCommand session commands dirty name t.frame).2 := by
      rw [interceptForTransaction, hname]
      dsimp only
      rw [if_neg hmulti, if_neg hdiscard, if_neg hexec, hon, if_neg (by decide), htx]
    rw [dispatched_of_answered hpass hqueue]
    rcases queueCommand_eq session commands dirty name t.frame with ⟨-, hr⟩ | ⟨-, e, hr⟩ <;>
      rw [hopened] at hr <;> rw [hr]
    · exact .queues htx
    · exact .spoils htx e

theorem does_of_passes (hflag : session.inTransaction = session.tx.isQueuing) :
    t.Does session (t.dispatched session) := by
  cases hname : commandNameUpper t.frame with
  | none =>
    have hproceed : interceptForTransaction session t.frame = .proceed := by
      rw [interceptForTransaction, hname]
    obtain ⟨e, he⟩ := Served.dispatchAndLogGated_of_nameless (t.xs 0)
      { t.server with session := session } hname
    rw [dispatched, Served.dispatchAndLog_of_proceed hpass hproceed, he]
    exact .refuses _ (.inr ⟨e, rfl⟩)
  | some name =>
    by_cases hmulti : name = txt "MULTI"
    · exact does_multi hpass (hmulti ▸ hname)
    by_cases hdiscard : name = txt "DISCARD"
    · exact does_discard hpass (hdiscard ▸ hname)
    by_cases hexec : name = txt "EXEC"
    · exact does_exec hpass (hexec ▸ hname)
    exact does_other hpass hflag hname hmulti hdiscard hexec

end

theorem outcome_does (t : Arrival F) (hflag : session.inTransaction = session.tx.isQueuing) :
    t.Does session (t.outcome session) := by
  rcases t.outcome_received session with ⟨a, ha, houtcome⟩ | houtcome
  · rw [houtcome]
    exact .refuses a ha
  · rw [houtcome]
    cases hauth : authGate t.server.acl session t.frame with
    | some reply =>
      obtain ⟨e, rfl⟩ := authGate_error hauth
      simp only [Served.dispatchAndLog, hauth]
      exact .refuses _ (.inr ⟨e, rfl⟩)
    | none =>
      cases hmode : subscribeModeGate session t.frame with
      | some reply =>
        obtain ⟨e, rfl⟩ := subscribeModeGate_error hmode
        simp only [Served.dispatchAndLog, hauth, hmode]
        exact .refuses _ (.inr ⟨e, rfl⟩)
      | none => exact does_of_passes ⟨hauth, hmode⟩ hflag

def answeredWith (text : Bytes) (o : Outcome F Answer) : Bool :=
  match o.result with
  | some (.reply (.simple s)) => decide (s = text)
  | _ => false

/-- The frames answered `QUEUED` since the last `MULTI` that was answered `OK`. -/
def queuedSince (handled : List (Arrival F × Outcome F Answer)) : List Frame :=
  handled.foldl (fun queue r =>
    if commandNameUpper r.1.frame = some (txt "MULTI") ∧ answeredWith (txt "OK") r.2 then []
    else if answeredWith (txt "QUEUED") r.2 then queue ++ [r.1.frame] else queue) []

theorem queuedSince_concat (handled : List (Arrival F × Outcome F Answer))
    (r : Arrival F × Outcome F Answer) :
    queuedSince (handled ++ [r]) =
      if commandNameUpper r.1.frame = some (txt "MULTI") ∧ answeredWith (txt "OK") r.2 then []
      else if answeredWith (txt "QUEUED") r.2 then queuedSince handled ++ [r.1.frame]
      else queuedSince handled := by
  rw [queuedSince, List.foldl_append]
  rfl

theorem outcomes_concat (session : Session) (ts : List (Arrival F)) (t : Arrival F) :
    outcomes session (ts ++ [t]) =
      outcomes session ts ++ [(t, t.outcome (sessionAfter session ts))] := by
  induction ts generalizing session with
  | nil => rfl
  | cons t' ts ih => rw [List.cons_append, outcomes, ih, outcomes, sessionAfter, List.cons_append]

theorem sessionAfter_concat (session : Session) (ts : List (Arrival F)) (t : Arrival F) :
    sessionAfter session (ts ++ [t]) = (t.outcome (sessionAfter session ts)).after.session := by
  induction ts generalizing session with
  | nil => rfl
  | cons t' ts ih => rw [List.cons_append, sessionAfter, ih, sessionAfter]

structure InStep (handled : List (Arrival F × Outcome F Answer)) (session : Session) : Prop where
  flag : session.inTransaction = session.tx.isQueuing
  queue : ∀ commands dirty, session.tx = .queuing commands dirty → commands = queuedSince handled

theorem InStep.of_idle {handled : List (Arrival F × Outcome F Answer)}
    (hflag : session.inTransaction = false) (htx : session.tx = .idle) :
    InStep handled session := by
  refine ⟨by rw [hflag, htx]; rfl, fun commands dirty h => ?_⟩
  rw [htx] at h
  cases h

theorem InStep.start (rmp : Bool) : InStep ([] : List (Arrival F × Outcome F Answer))
    (Session.start rmp) := by
  cases rmp <;> exact .of_idle rfl rfl

theorem handleExec_after (xs : Nat → Surroundings F) (w : Served F) {commands : List Frame}
    (hq : w.session.tx = .queuing commands false) :
    w.handleExec xs =
      let o := Served.runQueued xs { w with session := w.session.closed } commands
      ⟨o.result.map .array, o.after, o.touched⟩ := by
  have htake : takeQueue w.session = (.ok commands, w.session.closed) := by
    rw [takeQueue, hq]
    rfl
  simp only [Served.handleExec, htake]

theorem InStep.step {handled : List (Arrival F × Outcome F Answer)} (h : InStep handled session)
    (t : Arrival F) {o : Outcome F Answer} (ho : t.Does session o) :
    InStep (handled ++ [(t, o)]) o.after.session := by
  cases ho with
  | refuses a ha =>
    refine ⟨h.flag, fun commands dirty hq => (h.queue commands dirty hq).trans ?_⟩
    have hsilent (text : Bytes) :
        answeredWith text (⟨some a, { t.server with session := session }, []⟩ : Outcome F Answer) =
          false := by
      rcases ha with rfl | ⟨e, rfl⟩ <;> rfl
    rw [queuedSince_concat, hsilent, hsilent, if_neg fun hm => Bool.false_ne_true hm.2,
      if_neg Bool.false_ne_true]
  | opens hname hidle =>
    refine ⟨rfl, fun commands dirty hq => ?_⟩
    have hok : answeredWith (txt "OK") (t.answer okReply (session.opened [] false)) = true := rfl
    cases hq
    rw [queuedSince_concat, if_pos ⟨hname, hok⟩]
  | @queues commands dirty hq =>
    refine ⟨rfl, fun commands' dirty' hq' => ?_⟩
    have hok (s : Session) : answeredWith (txt "OK") (t.answer queuedReply s) = false := rfl
    have hqueued (s : Session) : answeredWith (txt "QUEUED") (t.answer queuedReply s) = true := rfl
    cases hq'
    rw [queuedSince_concat, hok, if_neg fun hm => Bool.false_ne_true hm.2, hqueued, if_pos rfl,
      h.queue commands dirty hq]
  | @spoils commands dirty hq e =>
    refine ⟨rfl, fun commands' dirty' hq' => ?_⟩
    have hsilent (text : Bytes) (s : Session) :
        answeredWith text (t.answer (.error e) s) = false := rfl
    cases hq'
    rw [queuedSince_concat, hsilent, hsilent, if_neg fun hm => Bool.false_ne_true hm.2,
      if_neg Bool.false_ne_true, h.queue commands dirty hq]
  | ends reply hname => exact .of_idle rfl rfl
  | @runs hname commands hq =>
    have hstands := Served.runQueued_standing t.xs
      { t.server with session := session.closed } commands
    have hafter := handleExec_after t.xs { t.server with session := session } hq
    rw [hafter]
    exact .of_idle (congrArg (·.2.1) hstands) (congrArg (·.2.2) hstands)
  | passes hidle hname hs =>
    refine .of_idle ((congrArg (·.2.1) hs).trans ?_) ((congrArg (·.2.2) hs).trans hidle)
    rw [Session.standing, h.flag, hidle]
    rfl

theorem inStep_after (rmp : Bool) (ts : List (Arrival F)) :
    InStep (outcomes (.start rmp) ts) (sessionAfter (.start rmp) ts) := by
  induction ts using List.reverseRecOn with
  | nil => exact .start rmp
  | append_singleton ts t ih =>
    rw [outcomes_concat, sessionAfter_concat]
    exact ih.step t (t.outcome_does ih.flag)

theorem Does.inert {o : Outcome F Answer} (ho : t.Does session o)
    (hopen : session.tx.isQueuing = true)
    (hname : commandNameUpper t.frame ≠ some (txt "EXEC")) : t.Inert o := by
  cases ho with
  | refuses | opens | queues | spoils | ends => exact ⟨rfl, rfl⟩
  | runs hexec _ => exact absurd hexec hname
  | passes hidle _ _ =>
    rw [hidle] at hopen
    cases hopen

/-- The replies to an `EXEC` that ran these commands, each once and in this order: the `i`-th is the
reply of the gated path to the `i`-th command, in the state the earlier ones have left. -/
def RanQueue (t : Arrival F) (session : Session) (commands : List Frame) (o : Outcome F Answer)
    (a : Answer) : Prop :=
  ∃ (replies : List Frame) (states : Nat → Served F), a = .reply (.array replies) ∧
    replies.length = commands.length ∧
    states 0 = { t.server with session := session.closed } ∧
    (∀ i frame, commands[i]? = some frame →
      ((states i).dispatchAndLogGated (t.xs i) frame).result = replies[i]? ∧
        ((states i).dispatchAndLogGated (t.xs i) frame).after = states (i + 1)) ∧
    o.after = states commands.length ∧
    o.after.session.tx = .idle ∧ o.after.session.inTransaction = false

theorem ranQueue_handleExec {commands : List Frame} (hq : session.tx = .queuing commands false)
    {a : Answer}
    (ha : (Served.handleExec t.xs { t.server with session := session }).answered.result = some a) :
    t.RanQueue session commands
      (Served.handleExec t.xs { t.server with session := session }).answered a := by
  have hafter := handleExec_after t.xs { t.server with session := session } hq
  rw [hafter] at ha ⊢
  let w : Served F := { t.server with session := session.closed }
  obtain ⟨reply, hreply, rfl⟩ := Option.map_eq_some_iff.mp ha
  obtain ⟨replies, hreplies, rfl⟩ := Option.map_eq_some_iff.mp hreply
  obtain ⟨hlength, hget⟩ := Served.runQueued_get hreplies
  have hstands := Served.runQueued_standing t.xs w commands
  refine ⟨replies, fun i => (w.runQueued t.xs (commands.take i)).after, rfl, hlength, rfl, hget,
    ?_, congrArg (·.2.2) hstands, congrArg (·.2.1) hstands⟩
  exact congrArg (fun l => (w.runQueued t.xs l).after) List.take_length.symm

structure Transactional (handled : List (Arrival F × Outcome F Answer)) (session : Session)
    (t : Arrival F) : Prop where
  flag : session.inTransaction = session.tx.isQueuing
  queue : ∀ commands dirty, session.tx = .queuing commands dirty → commands = queuedSince handled
  waits : session.tx.isQueuing = true → commandNameUpper t.frame ≠ some (txt "EXEC") →
    t.Inert (t.outcome session)
  discard : session.tx.isQueuing = true →
    Served.Passes { t.server with session := session } t.frame →
    commandNameUpper t.frame = some (txt "DISCARD") →
    t.outcome session = t.answer okReply session.closed
  abort : ∀ commands, session.tx = .queuing commands true →
    Served.Passes { t.server with session := session } t.frame →
    commandNameUpper t.frame = some (txt "EXEC") →
    t.outcome session = t.answer execAborted session.closed
  exec : ∀ commands, session.tx = .queuing commands false →
    Served.Passes { t.server with session := session } t.frame →
    commandNameUpper t.frame = some (txt "EXEC") →
    ∀ a, (t.outcome session).result = some a → t.RanQueue session commands (t.outcome session) a

theorem outcome_discard (hopen : session.tx.isQueuing = true)
    (hpass : Served.Passes { t.server with session := session } t.frame)
    (hname : commandNameUpper t.frame = some (txt "DISCARD")) :
    t.outcome session = t.answer okReply session.closed := by
  have hreceive : t.outcome session =
      (Served.dispatchAndLog t.xs { t.server with session := session } t.frame).answered :=
    Served.receive_of_name hname (by decide) t.xs
  have hanswered : interceptForTransaction session t.frame = .answered okReply session.closed := by
    rw [interceptForTransaction, hname]
    cases htx : session.tx with
    | idle =>
      rw [htx] at hopen
      cases hopen
    | queuing commands dirty =>
      have hdiscard : handleDiscard session = (okReply, session.closed) := by
        rw [handleDiscard, htx]
        rfl
      dsimp only
      rw [if_neg (by decide), if_pos rfl, hdiscard]
  rw [hreceive, Served.dispatchAndLog_of_answered hpass hanswered]
  rfl

theorem outcome_exec (hpass : Served.Passes { t.server with session := session } t.frame)
    (hname : commandNameUpper t.frame = some (txt "EXEC")) :
    t.outcome session = (Served.handleExec t.xs { t.server with session := session }).answered := by
  have htake : interceptForTransaction session t.frame = .exec := by
    rw [interceptForTransaction, hname]
    rfl
  rw [outcome_of_exec hname, Served.dispatchAndLog_of_exec hpass htake]

/-- A session queues what it answers `QUEUED`, runs exactly that when it is told to, and nothing
otherwise; whatever its frames are and whatever happens to the server between them. -/
theorem transaction_runs_queue (rmp : Bool) (ts : List (Arrival F)) (t : Arrival F) :
    t.Transactional (outcomes (.start rmp) ts) (sessionAfter (.start rmp) ts) := by
  have h := inStep_after rmp ts
  refine ⟨h.flag, h.queue, (t.outcome_does h.flag).inert, outcome_discard, ?_, ?_⟩
  · intro commands hq hpass hname
    rw [outcome_exec hpass hname]
    have htake : takeQueue (sessionAfter (.start rmp) ts) =
        (.error execAborted, (sessionAfter (.start rmp) ts).closed) := by
      rw [takeQueue, hq]
      rfl
    simp only [Served.handleExec, htake]
    rfl
  · intro commands hq hpass hname a ha
    rw [outcome_exec hpass hname] at ha ⊢
    exact ranQueue_handleExec hq ha

end Arrival

end RocketMem
