import RocketMem.Server.Served

namespace RocketMem

variable {F : Type} [F64 F]

/-- What only the interception of transactions changes of a session: whether it is one of RMP, and
its transaction in both the places it is kept. -/
def Session.standing (session : Session) : Bool × Bool × TransactionState :=
  (session.isRmp, session.inTransaction, session.tx)

namespace Served

variable {frame : Frame}

section

variable {argon : Argon2} {acl : AclStore} {session : Session}

theorem authenticateAs_standing (username password : Bytes) :
    (authenticateAs argon acl session username password).2.standing = session.standing := by
  unfold authenticateAs
  split <;> rfl

theorem handleAuth_standing {r : Frame × Session} (h : handleAuth argon acl session frame = some r) :
    r.2.standing = session.standing := by
  unfold handleAuth at h
  split at h
  · split_ifs at h
    obtain rfl := Option.some.inj h
    split <;> first | rfl | exact authenticateAs_standing _ _
  · cases h

theorem negotiate_standing (clientId : UInt64) (role mode : Bytes) (protocol : Protocol)
    (extra : List Frame) :
    (negotiate argon acl session clientId role mode protocol extra).2.standing =
      session.standing := by
  unfold negotiate
  split
  · rfl
  · next session' hextra =>
    have hsame : session'.standing = session.standing := by
      unfold applyHelloExtraArgs at hextra
      split at hextra
      · rw [← Except.ok.inj hextra]
      · split_ifs at hextra
        split at hextra
        · obtain rfl := Except.ok.inj hextra
          rfl
        · cases hextra
      · cases hextra
    split <;> exact hsame

theorem handleHello_standing {clientId : UInt64} {role mode : Bytes} {r : Frame × Session}
    (h : handleHello argon acl session clientId role mode frame = some r) :
    r.2.standing = session.standing := by
  unfold handleHello at h
  split at h
  · split at h
    · cases h
    · obtain rfl := Option.some.inj h
      split
      · split <;> rfl
      · split_ifs <;> first | rfl | exact negotiate_standing _ _ _ _ _
      · rfl
  · cases h

theorem setNames_standing (session : Session) (names : Finset Bytes) (kind : SubscriptionKind) :
    (session.setNames names kind).recount.standing = session.standing := by
  cases kind <;> rfl

theorem subscribeAll_standing (clientId : UInt64) (kind : SubscriptionKind) (tx : Nat)
    (names : List Bytes) (session : Session) (registry : PubSubRegistry) :
    (subscribeAll clientId kind tx names session registry).2.1.standing = session.standing := by
  induction names generalizing session registry with
  | nil => rfl
  | cons name names ih => exact (ih _ _).trans (setNames_standing session _ kind)

theorem unsubscribeAll_standing (clientId : UInt64) (kind : SubscriptionKind) (names : List Bytes)
    (session : Session) (registry : PubSubRegistry) :
    (unsubscribeAll clientId kind names session registry).2.1.standing = session.standing := by
  induction names generalizing session registry with
  | nil => rfl
  | cons name names ih => exact (ih _ _).trans (setNames_standing session _ kind)

theorem ensurePushChannel_standing (session : Session) (fresh : Nat) :
    (session.ensurePushChannel fresh).2.standing = session.standing := by
  unfold Session.ensurePushChannel
  split <;> rfl

theorem interceptForPubsub_standing (clientId : UInt64) (alive : Nat → Bool) (fresh : Nat)
    (session : Session) (registry : PubSubRegistry) (frame : Frame) :
    (interceptForPubsub clientId alive fresh session registry frame).session.standing =
      session.standing := by
  have hsub (kind : SubscriptionKind) (args : List Frame) :
      (handleSubscribe clientId kind fresh session registry args).session.standing =
        session.standing := by
    unfold handleSubscribe
    split
    · rfl
    · exact (subscribeAll_standing _ _ _ _ _ _).trans (ensurePushChannel_standing _ _)
  have hunsub (kind : SubscriptionKind) (args : List Frame) :
      (handleUnsubscribe clientId kind fresh session registry args).session.standing =
        session.standing :=
    (unsubscribeAll_standing _ _ _ _ _).trans (ensurePushChannel_standing _ _)
  have hpublish (args : List Frame) :
      (handlePublish alive session registry frame args).session.standing = session.standing := by
    unfold handlePublish
    split <;> rfl
  unfold interceptForPubsub
  dsimp only
  split
  · split
    · rfl
    · split_ifs
      · rfl
      · exact hsub _ _
      · exact hunsub _ _
      · exact hsub _ _
      · exact hunsub _ _
      · exact hpublish _
      · rfl
      · rfl
  · rfl

end

theorem dispatchAndLogGated_standing (x : Surroundings F) (w : Served F) (frame : Frame) :
    (w.dispatchAndLogGated x frame).after.session.standing = w.session.standing := by
  unfold dispatchAndLogGated
  split
  · next reply w' hfound =>
    obtain ⟨answer, hmem, hanswer⟩ := List.exists_of_findSome?_eq_some hfound
    obtain rfl : answer = some (reply, w') := hanswer
    simp only [interceptions, List.mem_cons, List.not_mem_nil, or_false] at hmem
    rcases hmem with h | h | h | h | h | h | h | h | h | h | h | h <;>
      · obtain ⟨_, ha, hw⟩ := Option.map_eq_some_iff.mp h.symm
        obtain rfl := congrArg Prod.snd hw
        first
          | rfl
          | exact handleAuth_standing ha
          | exact handleHello_standing ha
  · dsimp only
    have hsame :=
      interceptForPubsub_standing x.clientId x.alive x.freshChannel w.session w.pubsub frame
    split <;> exact hsame

end Served

end RocketMem
