import RocketMem.Server.Served

namespace RocketMem

open List Option

variable {F : Type} [F64 F]

section

variable {frame reply : Frame}

theorem parseTimeoutSecs_error {raw : Bytes} (h : parseTimeoutSecs (F := F) raw = .error reply) :
    ∃ e, reply = .error e := by
  unfold parseTimeoutSecs at h
  split at h
  · split_ifs at h
    cases h
    exact ⟨_, rfl⟩
  · cases h
    exact ⟨_, rfl⟩

theorem blockingTimeout_error (h : blockingTimeout F frame = some (.error reply)) :
    ∃ e, reply = .error e := by
  unfold blockingTimeout at h
  split at h
  · split_ifs at h
    split at h
    · exact parseTimeoutSecs_error (some.inj h)
    · cases h
  · cases h

theorem dispatch_of_nameless (h : commandNameUpper frame = none) :
    ∃ e, ∀ env : Env, dispatch env frame = (pure (.error e) : EngineProgram F Frame) := by
  cases hargs : frameToArgs frame with
  | error reply =>
    refine ⟨txt "ERR invalid request, expected array of bulk strings", fun env => ?_⟩
    rw [dispatch, hargs, frameToArgs_error hargs]
    rfl
  | ok words =>
    cases words with
    | nil =>
      refine ⟨txt "ERR empty command", fun env => ?_⟩
      rw [dispatch, hargs]
    | cons raw args =>
      obtain rfl := frameToArgs_ok hargs
      have hupper : upperName raw = none := h
      refine ⟨txt "ERR unknown command '" ++ fromUtf8Lossy raw ++ txt "'", fun env => ?_⟩
      simp only [dispatch, hargs, hupper]
      rfl

theorem Served.dispatchAndLogGated_of_nameless (x : Surroundings F) (w : Served F)
    (h : commandNameUpper frame = none) :
    ∃ e, w.dispatchAndLogGated x frame = ⟨some (.error e), w, []⟩ := by
  have hname (raw : Bytes) (items : List Frame) (hframe : frame = .array (.bulk raw :: items)) :
      commandName raw = none := by
    subst hframe
    exact congrArg (Option.bind · CommandName.ofText) h
  have hkeys : commandKeys frame = [] := by
    unfold commandKeys
    split
    · rw [hname _ _ rfl]
    · rfl
  have hread : extractWriteCommandName frame = none := by
    unfold extractWriteCommandName
    split
    · rw [hname _ _ rfl, filter_none]
    · rfl
  have hgated := dispatchAndLogGated_of_unintercepted (w := w) (refuse_eq_none (x := x) hkeys hread)
    (fun _ _ hsome => nomatch h.symm.trans hsome) (fun _ hsome => nomatch h.symm.trans hsome)
  obtain ⟨e, hdispatch⟩ := dispatch_of_nameless (F := F) h
  refine ⟨e, ?_⟩
  have hlog : toLog x.env.clock frame (.error e) = [] := rfl
  rw [hgated, dispatchLogged, hdispatch x.env]
  exact congrArg (fun reply => (⟨some reply, w, []⟩ : Outcome F Frame))
    (if_neg fun hfails => hfails.2 hlog)

end

def execAborted : Frame := .error (txt "EXECABORT Transaction discarded because of previous errors")

def Session.opened (session : Session) (commands : List Frame) (dirty : Bool) : Session :=
  { session with tx := .queuing commands dirty, inTransaction := true }

/-- Names that are queued; all others get an error and spoil the transaction. -/
def queueable (name : Bytes) : Bool :=
  decide (name ∉ unqueueable ∧ name ∈ CommandName.known.map CommandName.text)

theorem queueCommand_eq (session : Session) (commands : List Frame) (dirty : Bool) (name : Bytes)
    (frame : Frame) :
    (queueable name = true ∧ queueCommand (session.opened commands dirty) commands dirty name frame =
        (queuedReply, session.opened (commands ++ [frame]) dirty)) ∨
      queueable name = false ∧ ∃ e,
        queueCommand (session.opened commands dirty) commands dirty name frame =
          (.error e, session.opened commands true) := by
  by_cases hun : name ∈ unqueueable
  · refine .inr ⟨decide_eq_false fun h => h.1 hun, _, if_pos hun⟩
  · by_cases hknown : name ∈ CommandName.known.map CommandName.text
    · exact .inl ⟨decide_eq_true ⟨hun, hknown⟩, (if_neg hun).trans (if_pos hknown)⟩
    · exact .inr ⟨decide_eq_false fun h => hknown h.2, _, (if_neg hun).trans (if_neg hknown)⟩

/-- A frame of a connection and the server as it is when the frame is handled: between two frames
others may have changed anything but the session. -/
structure Arrival (F : Type) [F64 F] where
  xs : Nat → Surroundings F
  server : Served F
  frame : Frame

namespace Arrival

def outcome (t : Arrival F) (session : Session) : Outcome F Answer :=
  Served.receive t.xs { t.server with session := session } t.frame

def sessionAfter : Session → List (Arrival F) → Session
  | session, [] => session
  | session, t :: ts => sessionAfter (t.outcome session).after.session ts

def outcomes : Session → List (Arrival F) → List (Arrival F × Outcome F Answer)
  | _, [] => []
  | session, t :: ts =>
    (t, t.outcome session) :: outcomes (t.outcome session).after.session ts

def answer (t : Arrival F) (reply : Frame) (session : Session) : Outcome F Answer :=
  ⟨some (.reply reply), { t.server with session := session }, []⟩

/-- The frame does not end the transaction, nor the connection by turning it into a replica's. -/
structure Between (t : Arrival F) (session : Session) : Prop where
  exec : commandNameUpper t.frame ≠ some (txt "EXEC")
  discard : commandNameUpper t.frame ≠ some (txt "DISCARD")
  psync : session.isRmp = true ∨ isPsyncCommand t.frame = false

def timely (t : Arrival F) (session : Session) : Bool :=
  session.isRmp || match blockingTimeout F t.frame with
    | some (.error _) => false
    | _ => true

def accepted (t : Arrival F) (session : Session) : Bool :=
  t.timely session && (authGate t.server.acl session t.frame).isNone

def queues (t : Arrival F) (session : Session) : Bool :=
  t.accepted session && (commandNameUpper t.frame).any queueable

def dirties (t : Arrival F) (session : Session) : Bool :=
  t.accepted session &&
    (commandNameUpper t.frame).any fun name => decide (name ≠ txt "MULTI") && !queueable name

section

variable {t : Arrival F} {session : Session} {commands : List Frame} {dirty : Bool}

theorem outcome_of_late (h : t.timely session = false) (hbetween : t.Between session) :
    ∃ e, t.outcome session = t.answer (.error e) session := by
  obtain ⟨hrmp, htimeout⟩ := Bool.or_eq_false_iff.mp h
  have hpsync := hbetween.psync.resolve_left (Bool.eq_false_iff.mp hrmp)
  split at htimeout
  · next reply he =>
    obtain ⟨e, rfl⟩ := blockingTimeout_error he
    refine ⟨e, ?_⟩
    rw [outcome, Served.receive]
    dsimp only
    rw [if_neg (Bool.eq_false_iff.mp hrmp), hpsync, if_neg Bool.false_ne_true, he]
    rfl
  · cases htimeout

theorem outcome_of_timely (h : t.timely session = true) (hbetween : t.Between session) :
    t.outcome session =
      (Served.dispatchAndLog t.xs { t.server with session := session } t.frame).answered := by
  by_cases hrmp : session.isRmp = true
  · exact if_pos hrmp
  · have hpsync := hbetween.psync.resolve_left hrmp
    have htimeout := (Bool.or_eq_true_iff.mp h).resolve_left hrmp
    rw [outcome, Served.receive]
    dsimp only
    rw [if_neg hrmp, hpsync, if_neg Bool.false_ne_true]
    split
    · next e he =>
      rw [he] at htimeout
      cases htimeout
    · rfl

theorem outcome_of_not_accepted (h : t.accepted session = false) (hbetween : t.Between session) :
    ∃ e, t.outcome session = t.answer (.error e) session := by
  cases htimely : t.timely session with
  | false => exact outcome_of_late htimely hbetween
  | true =>
    rw [accepted, htimely, Bool.true_and, isNone_eq_false_iff] at h
    obtain ⟨reply, hauth⟩ := isSome_iff_exists.mp h
    obtain ⟨e, rfl⟩ := authGate_error hauth
    refine ⟨e, ?_⟩
    rw [outcome_of_timely htimely hbetween]
    simp only [Served.dispatchAndLog, hauth]
    rfl

theorem dirties_of_queues (h : t.queues session = true) : t.dirties session = false := by
  unfold queues at h
  unfold dirties
  cases hname : commandNameUpper t.frame with
  | none => exact Bool.and_false _
  | some name =>
    rw [hname, any_some, Bool.and_eq_true] at h
    rw [any_some, h.2, Bool.not_true, Bool.and_false, Bool.and_false]

theorem outcome_opened (commands : List Frame) (dirty : Bool) (hbetween : t.Between session)
    (hmode : session.subscriptionCount = 0 ∨ session.protocol ≠ .resp2) :
    (t.queues session = true ∧ t.outcome (session.opened commands dirty) =
        t.answer queuedReply (session.opened (commands ++ [t.frame]) dirty)) ∨
      t.queues session = false ∧ ∃ e, t.outcome (session.opened commands dirty) =
        t.answer (.error e) (session.opened commands (dirty || t.dirties session)) := by
  -- opening a transaction changes nothing of what the gates look at
  have hbetween' : t.Between (session.opened commands dirty) := ⟨hbetween.1, hbetween.2, hbetween.3⟩
  cases haccepted : t.accepted session with
  | false =>
    rw [queues, dirties, haccepted, Bool.false_and, Bool.false_and, Bool.or_false]
    exact .inr ⟨rfl, outcome_of_not_accepted haccepted hbetween'⟩
  | true =>
    obtain ⟨htimely, hauth⟩ := Bool.and_eq_true_iff.mp haccepted
    let w : Served F := { t.server with session := session.opened commands dirty }
    have hpass : w.Passes t.frame := ⟨isNone_iff_eq_none.mp hauth, if_pos hmode⟩
    have houtcome : t.outcome (session.opened commands dirty) =
      (w.dispatchAndLog t.xs t.frame).answered := outcome_of_timely htimely hbetween'
    rw [queues, dirties, haccepted, Bool.true_and, Bool.true_and, houtcome]
    cases hname : commandNameUpper t.frame with
    | none =>
      have hproceed : interceptForTransaction w.session t.frame = .proceed := by
        rw [interceptForTransaction, hname]
      obtain ⟨e, hgated⟩ := Served.dispatchAndLogGated_of_nameless (t.xs 0) w hname
      refine .inr ⟨rfl, e, ?_⟩
      rw [Served.dispatchAndLog_of_proceed hpass hproceed, hgated, any_none, Bool.or_false]
      rfl
    | some name =>
      have hexec : name ≠ txt "EXEC" := fun h => hbetween.exec (hname.trans (congrArg some h))
      have hdiscard : name ≠ txt "DISCARD" :=
        fun h => hbetween.discard (hname.trans (congrArg some h))
      rw [any_some, any_some]
      by_cases hmulti : name = txt "MULTI"
      · have hnested : interceptForTransaction w.session t.frame =
            .answered (.error (txt "ERR MULTI calls can not be nested")) w.session := by
          rw [interceptForTransaction, hname]
          exact if_pos hmulti
        rw [Served.dispatchAndLog_of_answered hpass hnested, hmulti]
        refine .inr ⟨by decide, txt "ERR MULTI calls can not be nested", ?_⟩
        rw [decide_eq_false (not_not.mpr rfl), Bool.false_and, Bool.or_false]
        rfl
      · have hqueue : interceptForTransaction w.session t.frame =
            .answered (queueCommand w.session commands dirty name t.frame).1
              (queueCommand w.session commands dirty name t.frame).2 := by
          rw [interceptForTransaction, hname]
          dsimp only
          rw [if_neg hmulti, if_neg hdiscard, if_neg hexec]
          rfl
        rw [Served.dispatchAndLog_of_answered hpass hqueue, decide_eq_true hmulti, Bool.true_and]
        rcases queueCommand_eq session commands dirty name t.frame with ⟨hq, hr⟩ | ⟨hq, e, hr⟩
        · exact .inl ⟨hq, by rw [hr]; rfl⟩
        · refine .inr ⟨hq, e, ?_⟩
          rw [hr, hq, Bool.not_false, Bool.or_true]
          rfl

end

section

variable {session : Session} (hmode : session.subscriptionCount = 0 ∨ session.protocol ≠ .resp2)

include hmode

theorem sessionAfter_opened {body : List (Arrival F)} (hbody : ∀ t ∈ body, t.Between session)
    (commands : List Frame) (dirty : Bool) :
    ∃ queued, sessionAfter (session.opened commands dirty) body =
      session.opened queued (dirty || body.any (dirties · session)) := by
  induction body generalizing commands dirty with
  | nil => exact ⟨commands, by rw [sessionAfter, any_nil, Bool.or_false]⟩
  | cons t body ih =>
    have hrest := ih fun t ht => hbody t (mem_cons_of_mem _ ht)
    rw [any_cons, sessionAfter]
    rcases outcome_opened commands dirty (hbody t mem_cons_self) hmode
      with ⟨hqueues, houtcome⟩ | ⟨-, e, houtcome⟩
    · -- what is queued does not spoil the transaction
      rw [houtcome, dirties_of_queues hqueues, Bool.false_or]
      exact hrest _ _
    · rw [houtcome, ← Bool.or_assoc]
      exact hrest _ _

theorem outcomes_opened {body : List (Arrival F)} (hbody : ∀ t ∈ body, t.Between session)
    (commands : List Frame) (dirty : Bool) :
    ∀ r ∈ outcomes (session.opened commands dirty) body, ∃ reply after,
      r.2 = r.1.answer reply after ∧
        if r.1.queues session then reply = queuedReply else ∃ e, reply = .error e := by
  induction body generalizing commands dirty with
  | nil => exact fun r hr => absurd hr not_mem_nil
  | cons t body ih =>
    have hrest := ih fun t ht => hbody t (mem_cons_of_mem _ ht)
    intro r hr
    rcases outcome_opened commands dirty (hbody t mem_cons_self) hmode
      with ⟨hqueues, houtcome⟩ | ⟨hqueues, e, houtcome⟩
    · rw [outcomes, houtcome] at hr
      rcases mem_cons.mp hr with rfl | hr
      · exact ⟨_, _, rfl, by rw [if_pos hqueues]⟩
      · exact hrest _ _ r hr
    · rw [outcomes, houtcome] at hr
      rcases mem_cons.mp hr with rfl | hr
      · refine ⟨_, _, rfl, ?_⟩
        rw [hqueues, if_neg Bool.false_ne_true]
        exact ⟨e, rfl⟩
      · exact hrest _ _ r hr

omit hmode in
theorem map_fst_outcomes (session : Session) (body : List (Arrival F)) :
    (outcomes session body).map Prod.fst = body := by
  induction body generalizing session with
  | nil => rfl
  | cons t body ih => rw [outcomes, map_cons, ih]

end

def Inert (t : Arrival F) (o : Outcome F Answer) : Prop :=
  o.after = { t.server with session := o.after.session } ∧ o.touched = []

variable {exec : Arrival F} (hexec : commandNameUpper exec.frame = some (txt "EXEC"))

include hexec

theorem outcome_of_exec (session : Session) :
    exec.outcome session =
      (Served.dispatchAndLog exec.xs { exec.server with session := session } exec.frame).answered :=
  Served.receive_of_name hexec (by decide) exec.xs

theorem outcome_exec_dirty {session : Session}
    (hmode : session.subscriptionCount = 0 ∨ session.protocol ≠ .resp2)
    (hauth : authGate exec.server.acl session exec.frame = none) (commands : List Frame) :
    exec.outcome (session.opened commands true) =
      exec.answer execAborted { session with tx := .idle, inTransaction := false } := by
  let w : Served F := { exec.server with session := session.opened commands true }
  have hpass : w.Passes exec.frame := ⟨hauth, if_pos hmode⟩
  have htake : interceptForTransaction w.session exec.frame = .exec := by
    rw [interceptForTransaction, hexec]
    rfl
  rw [outcome_of_exec hexec, Served.dispatchAndLog_of_exec hpass htake]
  rfl

theorem dirty_of_outcome_exec {session : Session}
    (hmode : session.subscriptionCount = 0 ∨ session.protocol ≠ .resp2) {commands : List Frame}
    {dirty : Bool}
    (h : (exec.outcome (session.opened commands dirty)).result = some (.reply execAborted)) :
    authGate exec.server.acl session exec.frame = none ∧ dirty = true := by
  let w : Served F := { exec.server with session := session.opened commands dirty }
  have houtcome : exec.outcome (session.opened commands dirty) =
      (w.dispatchAndLog exec.xs exec.frame).answered := outcome_of_exec hexec _
  rw [houtcome] at h
  cases hauth : authGate exec.server.acl session exec.frame with
  | some reply =>
    have hauth' : authGate w.acl w.session exec.frame = some reply := hauth
    simp only [Served.dispatchAndLog, hauth'] at h
    obtain rfl : reply = execAborted := Answer.reply.inj (some.inj h)
    rcases authGate_reply hauth with h | h | h <;> exact absurd (Frame.error.inj h) (by decide)
  | none =>
    refine ⟨rfl, ?_⟩
    have hpass : w.Passes exec.frame := ⟨hauth, if_pos hmode⟩
    have htake : interceptForTransaction w.session exec.frame = .exec := by
      rw [interceptForTransaction, hexec]
      rfl
    rw [Served.dispatchAndLog_of_exec hpass htake] at h
    cases dirty with
    | true => rfl
    | false =>
      -- the replies of the queued commands come in an array
      let o := Served.runQueued exec.xs
        { w with session := { w.session with tx := .idle, inTransaction := false } } commands
      have hreplies : (o.result.map Frame.array).map Answer.reply = some (.reply execAborted) := h
      cases hresult : o.result <;> rw [hresult] at hreplies <;> cases hreplies

end Arrival

def TooFewArgs (F : Type) [F64 F] (raw : Bytes) (args : List Bytes) : Prop :=
  ∀ (env : Env) (n : Nat), ∃ name,
    dispatch env (.command (raw :: args.take n)) = (pure (wrongArgs name) : EngineProgram F Frame)

/-- A command array that should not get into a transaction. -/
def Frame.Rejected (F : Type) [F64 F] (frame : Frame) : Prop :=
  ∃ raw items, frame = .array (.bulk raw :: items) ∧
    (commandName raw = none ∨ ∃ args, items = args.map .bulk ∧ TooFewArgs F raw args)

/-- The frames that should not get into the transaction are answered with errors, its `EXEC` replies
that it was aborted, and nothing is executed. -/
structure TransactionAborted (session : Session) (body : List (Arrival F)) (exec : Arrival F) : Prop where
  errors : ∀ r ∈ Arrival.outcomes session body, r.1.frame.Rejected F →
    ∃ e, r.2.result = some (.reply (.error e))
  aborts : (exec.outcome (Arrival.sessionAfter session body)).result = some (.reply execAborted)
  waits : ∀ r ∈ Arrival.outcomes session body, r.1.Inert r.2
  drops : exec.Inert (exec.outcome (Arrival.sessionAfter session body))

/-- No frame that should not get into the transaction is queued, one frame at least spoils the
transaction, and the user may run `EXEC`. -/
structure Abortable (session : Session) (body : List (Arrival F)) (exec : Arrival F) : Prop where
  unqueued : ∀ t ∈ body, t.frame.Rejected F → t.queues session = false
  spoiled : ∃ t ∈ body, t.dirties session = true
  allowed : authGate exec.server.acl session exec.frame = none

section

variable {session : Session} {body : List (Arrival F)} {exec : Arrival F}
  (hmode : session.subscriptionCount = 0 ∨ session.protocol ≠ .resp2)
  (hbody : ∀ t ∈ body, t.Between session) (hexec : commandNameUpper exec.frame = some (txt "EXEC"))

include hmode hbody hexec

theorem Abortable.aborted (h : Abortable session body exec) :
    TransactionAborted (session.opened [] false) body exec := by
  have hreplies := Arrival.outcomes_opened hmode hbody [] false
  have hspoiled : body.any (Arrival.dirties · session) = true := any_eq_true.mpr h.spoiled
  obtain ⟨queued, hafter⟩ := Arrival.sessionAfter_opened hmode hbody [] false
  have houtcome := Arrival.outcome_exec_dirty hexec hmode h.allowed queued
  rw [hspoiled, Bool.or_true] at hafter
  rw [← hafter] at houtcome
  constructor
  · intro r hr hrejected
    obtain ⟨reply, after, hr', hreply⟩ := hreplies r hr
    have hmem : r.1 ∈ body := Arrival.map_fst_outcomes _ body ▸ mem_map_of_mem hr
    rw [h.unqueued r.1 hmem hrejected, if_neg Bool.false_ne_true] at hreply
    obtain ⟨e, rfl⟩ := hreply
    exact ⟨e, by rw [hr']; rfl⟩
  · rw [houtcome]
    rfl
  · intro r hr
    obtain ⟨reply, after, hr', -⟩ := hreplies r hr
    rw [hr']
    exact ⟨rfl, rfl⟩
  · rw [houtcome]
    exact ⟨rfl, rfl⟩

theorem TransactionAborted.abortable (h : TransactionAborted (session.opened [] false) body exec) :
    Abortable session body exec := by
  have hreplies := Arrival.outcomes_opened hmode hbody [] false
  obtain ⟨queued, hafter⟩ := Arrival.sessionAfter_opened hmode hbody [] false
  have haborts := h.aborts
  rw [hafter, Bool.false_or] at haborts
  obtain ⟨hallowed, hspoiled⟩ := Arrival.dirty_of_outcome_exec hexec hmode haborts
  refine ⟨fun t ht hrejected => ?_, any_eq_true.mp hspoiled, hallowed⟩
  rw [← Arrival.map_fst_outcomes (session.opened [] false) body] at ht
  obtain ⟨r, hr, rfl⟩ := mem_map.mp ht
  obtain ⟨reply, after, hr', hreply⟩ := hreplies r hr
  obtain ⟨e, he⟩ := h.errors r hr hrejected
  rw [hr'] at he
  by_contra hqueues
  rw [if_pos (Bool.eq_true_of_not_eq_false hqueues)] at hreply
  cases Answer.reply.inj (some.inj he) ▸ hreply

end

theorem opened_of_multi {session : Session} {multi : Arrival F}
    (hmulti : commandNameUpper multi.frame = some (txt "MULTI"))
    (h : (multi.outcome session).result = some (.reply okReply)) :
    (session.subscriptionCount = 0 ∨ session.protocol ≠ .resp2) ∧
      (multi.outcome session).after.session = session.opened [] false := by
  let w : Served F := { multi.server with session := session }
  have houtcome : multi.outcome session = (w.dispatchAndLog multi.xs multi.frame).answered :=
    Served.receive_of_name hmulti (by decide) multi.xs
  rw [houtcome] at h ⊢
  cases hauth : authGate w.acl w.session multi.frame with
  | some reply =>
    obtain ⟨e, rfl⟩ := authGate_error hauth
    simp only [Served.dispatchAndLog, hauth] at h
    cases h
  | none =>
    by_cases hmode : session.subscriptionCount = 0 ∨ session.protocol ≠ .resp2
    · have hpass : w.Passes multi.frame := ⟨hauth, if_pos hmode⟩
      have hopen : interceptForTransaction w.session multi.frame =
          .answered (handleMulti session).1 (handleMulti session).2 := by
        rw [interceptForTransaction, hmulti]
        rfl
      rw [Served.dispatchAndLog_of_answered hpass hopen] at h ⊢
      refine ⟨hmode, ?_⟩
      change some (Answer.reply (handleMulti session).1) = some (.reply okReply) at h
      change (handleMulti session).2 = session.opened [] false
      unfold handleMulti at h ⊢
      split at h
      · cases h
      · rfl
    · have hrefused : ∃ e, subscribeModeGate w.session multi.frame = some (.error e) := by
        rw [subscribeModeGate, if_neg hmode, hmulti]
        exact ⟨_, if_neg (by decide)⟩
      obtain ⟨e, hrefused⟩ := hrefused
      simp only [Served.dispatchAndLog, hauth, hrefused] at h
      cases h

/-- A transaction with a frame that should not get into it is aborted exactly when no such frame is
queued, some frame of it gets past the gates to spoil it, and so does its `EXEC`. -/
theorem rejection_aborts_iff {session : Session} {multi exec : Arrival F} {body : List (Arrival F)}
    (hmulti : commandNameUpper multi.frame = some (txt "MULTI"))
    (hopened : (multi.outcome session).result = some (.reply okReply))
    (hbody : ∀ t ∈ body, t.Between session)
    (hexec : commandNameUpper exec.frame = some (txt "EXEC")) :
    ((∃ t ∈ body, t.frame.Rejected F) → TransactionAborted (multi.outcome session).after.session body exec) ↔
      ((∃ t ∈ body, t.frame.Rejected F) → Abortable session body exec) := by
  obtain ⟨hmode, hafter⟩ := opened_of_multi hmulti hopened
  rw [hafter]
  exact imp_congr_right fun _ =>
    ⟨fun h => h.abortable hmode hbody hexec, fun h => h.aborted hmode hbody hexec⟩

def Arrival.alone (words : List Bytes) : Arrival Score :=
  ⟨fun _ => .standalone, .fresh, .command words⟩

theorem rejected_unknown : (Frame.command [txt "NOSUCH"]).Rejected Score :=
  ⟨_, _, rfl, .inl (by decide)⟩

theorem between_alone {name : Bytes} {args : List Bytes}
    (hexec : upperName name ≠ some (txt "EXEC")) (hdiscard : upperName name ≠ some (txt "DISCARD"))
    (hpsync : asciiUpper name ≠ txt "PSYNC") : (Arrival.alone (name :: args)).Between .new :=
  ⟨hexec, hdiscard, .inr (decide_eq_false hpsync)⟩

theorem rejection_aborts_unknown :
    TransactionAborted ((Arrival.alone [txt "MULTI"]).outcome .new).after.session [.alone [txt "NOSUCH"]]
      (.alone [txt "EXEC"]) := by
  have hmulti : commandNameUpper (Arrival.alone [txt "MULTI"]).frame = some (txt "MULTI") := rfl
  refine (rejection_aborts_iff hmulti rfl ?_ rfl).mpr (fun _ => ?_) ?_
  · intro t ht
    obtain rfl := mem_singleton.mp ht
    exact between_alone (by decide) (by decide) (by decide)
  · refine ⟨fun t ht _ => ?_, ⟨_, mem_singleton_self _, rfl⟩, rfl⟩
    obtain rfl := mem_singleton.mp ht
    rfl
  · exact ⟨_, mem_singleton_self _, rejected_unknown⟩

/-- A `GET` without a key is queued, and a name of 33 bytes gets an error but `EXEC` goes ahead. -/
theorem rejection_not_aborting :
    ((Frame.command [txt "GET"]).Rejected Score ∧
        ¬ TransactionAborted ((Arrival.alone [txt "MULTI"]).outcome .new).after.session [.alone [txt "GET"]]
          (.alone [txt "EXEC"])) ∧
      (Frame.command [List.replicate 33 65]).Rejected Score ∧
        ¬ TransactionAborted ((Arrival.alone [txt "MULTI"]).outcome .new).after.session
          [.alone [List.replicate 33 65]] (.alone [txt "EXEC"]) := by
  have hget : (Frame.command [txt "GET"]).Rejected Score := by
    refine ⟨_, _, rfl, .inr ⟨[], rfl, fun env n => ⟨"get", ?_⟩⟩⟩
    rw [take_nil]
    rfl
  refine ⟨⟨hget, fun h => ?_⟩, ⟨_, _, rfl, .inl (by decide)⟩, fun h => ?_⟩
  · obtain ⟨e, he⟩ := h.errors _ (mem_singleton_self _) hget
    have hqueued : some (Answer.reply queuedReply) = some (.reply (.error e)) := he
    cases hqueued
  · have hdone : some (Answer.reply (.array [])) = some (.reply execAborted) := h.aborts
    cases hdone

end RocketMem
