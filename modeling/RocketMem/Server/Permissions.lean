import RocketMem.Framework.Transition
import RocketMem.Server.Front

namespace RocketMem

/-- What can happen to a session and its users: a frame of its own, an `ACL SETUSER` or
`ACL DELUSER` of another connection, and anything others do to the rest. -/
inductive FrontEvent (σ : Type) where
  | own (frame : Frame)
  | setUser (username : Bytes) (rawTokens : List Bytes)
  | delUser (username : Bytes)
  | elsewhere (rest : σ)

namespace Front

variable {σ : Type} (b : Backend σ)

def step (w : Front σ) : FrontEvent σ → Front σ
  | .own frame => (w.dispatchAndLogInner b frame).2
  | .setUser username rawTokens =>
    match w.acl.setUser b.argon username rawTokens with
    | .ok acl => { w with acl := acl }
    | .error _ => w
  | .delUser username => { w with acl := (w.acl.delUser username).2 }
  | .elsewhere rest => { w with rest := rest }

/-- While the session has a transaction open nobody sets or deletes its user and it does not queue
`AUTH` or `HELLO`; an `EXEC` comes when users have been configured. -/
def Steady (w : Front σ) : FrontEvent σ → Prop
  | .own frame =>
    (w.session.inTransaction = true → commandNameUpper frame ≠ some (txt "AUTH") ∧
      commandNameUpper frame ≠ some (txt "HELLO")) ∧
    (commandNameUpper frame = some (txt "EXEC") → w.acl.everConfigured = true)
  | .setUser username _ | .delUser username =>
    w.session.inTransaction = true →
      ∀ cached, w.session.authenticatedUser = some cached → cached.username ≠ username
  | .elsewhere _ => True

end Front

section

theorem asciiUpper_ne_of_nameless {raw name : Bytes} {args : List Frame}
    (h : commandNameUpper (.array (.bulk raw :: args)) = none)
    (hlen : name.length ≤ maxCommandNameLen) (hascii : isAscii name = true) :
    asciiUpper raw ≠ name := by
  intro hname
  rw [commandNameUpper, upperName_of_asciiUpper hname hlen hascii] at h
  cases h

variable {argon : Argon2} {acl : AclStore} {session : Session} {frame : Frame}

theorem handleAuth_of_nameless (h : commandNameUpper frame = none) :
    handleAuth argon acl session frame = none := by
  unfold handleAuth
  split
  · exact if_pos (asciiUpper_ne_of_nameless h (by decide) (by decide))
  · rfl

theorem handleAcl_of_nameless {describe : AclStore → Bytes → List Frame → Frame}
    (h : commandNameUpper frame = none) : handleAcl argon describe acl session frame = none := by
  unfold handleAcl
  split
  · exact if_pos (asciiUpper_ne_of_nameless h (by decide) (by decide))
  · rfl

theorem handleHello_of_nameless {clientId : UInt64} {role mode : Bytes}
    (h : commandNameUpper frame = none) :
    handleHello argon acl session clientId role mode frame = none := by
  unfold handleHello
  split
  · exact if_pos (asciiUpper_ne_of_nameless h (by decide) (by decide))
  · rfl

end

section

variable {argon : Argon2} {acl : AclStore} {session session' : Session} {reply frame : Frame}

structure Identifies (acl : AclStore) (session session' : Session) : Prop where
  tx : session'.tx = session.tx
  inTransaction : session'.inTransaction = session.inTransaction
  user : session'.authenticatedUser = session.authenticatedUser ∨ acl.everConfigured = true

theorem identifies_refl : Identifies acl session session := ⟨rfl, rfl, .inl rfl⟩

theorem everConfigured_of_tryAuthenticate {username password : Bytes} {user : AclUser}
    (h : tryAuthenticate argon acl username password = .ok user) : acl.everConfigured = true := by
  unfold tryAuthenticate at h
  split at h
  · cases h
  · next hconf => simpa using hconf

theorem authenticateAs_identifies (username password : Bytes) :
    Identifies acl session (authenticateAs argon acl session username password).2 := by
  unfold authenticateAs
  split
  · next user huser => exact ⟨rfl, rfl, .inr (everConfigured_of_tryAuthenticate huser)⟩
  · exact identifies_refl

theorem handleAuth_identifies (h : handleAuth argon acl session frame = some (reply, session')) :
    Identifies acl session session' := by
  unfold handleAuth at h
  split at h
  · split at h
    · cases h
    · have hsession := congrArg Prod.snd (Option.some.inj h)
      dsimp only at hsession
      rw [← hsession]
      split
      · exact authenticateAs_identifies _ _
      · exact identifies_refl
      · exact authenticateAs_identifies _ _
      · exact identifies_refl
      · exact identifies_refl
  · cases h

theorem applyHelloExtraArgs_identifies {extra : List Frame}
    (h : applyHelloExtraArgs argon acl session extra = .ok session') :
    Identifies acl session session' := by
  unfold applyHelloExtraArgs at h
  split at h
  · cases h
    exact identifies_refl
  · split at h
    · cases h
    · split at h
      · next user huser =>
        cases h
        exact ⟨rfl, rfl, .inr (everConfigured_of_tryAuthenticate huser)⟩
      · cases h
  · cases h

theorem negotiate_identifies (clientId : UInt64) (role mode : Bytes) (protocol : Protocol)
    (extra : List Frame) :
    Identifies acl session (negotiate argon acl session clientId role mode protocol extra).2 := by
  unfold negotiate
  split
  · exact identifies_refl
  · next session₁ hextra =>
    have hid := applyHelloExtraArgs_identifies hextra
    split
    · exact hid
    · exact ⟨hid.tx, hid.inTransaction, hid.user⟩

theorem handleHello_identifies {clientId : UInt64} {role mode : Bytes}
    (h : handleHello argon acl session clientId role mode frame = some (reply, session')) :
    Identifies acl session session' := by
  unfold handleHello at h
  split at h
  · split at h
    · cases h
    · have hsession := congrArg Prod.snd (Option.some.inj h)
      dsimp only at hsession
      rw [← hsession]
      split
      · split <;> exact identifies_refl
      · split
        · exact negotiate_identifies ..
        · split
          · exact negotiate_identifies ..
          · exact identifies_refl
      · exact identifies_refl
  · cases h

theorem everConfigured_delUsers (acl : AclStore) (usernames : List Bytes) :
    (delUsers acl usernames).2.everConfigured = acl.everConfigured := by
  induction usernames generalizing acl with
  | nil => rfl
  | cons username rest ih => exact ih _

theorem handleAcl_everConfigured {describe : AclStore → Bytes → List Frame → Frame} {acl' : AclStore}
    (h : handleAcl argon describe acl session frame = some (reply, acl'))
    (hconf : acl.everConfigured = true) : acl'.everConfigured = true := by
  unfold handleAcl at h
  split at h
  · split at h
    · cases h
    · have hacl := congrArg Prod.snd (Option.some.inj h)
      dsimp only at hacl
      rw [← hacl]
      split
      · split
        · unfold aclSetuser
          split
          · split
            · exact hconf
            · split
              · next acl₁ hset => exact AclStore.everConfigured_setUser hset
              · exact hconf
          · exact hconf
        · split
          · unfold aclDeluser
            split
            · exact hconf
            · rw [everConfigured_delUsers]
              exact hconf
          · split
            · exact hconf
            · split <;> exact hconf
      · exact hconf
  · cases h

end

namespace Front

variable {σ : Type} {b : Backend σ} {w : Front σ} {frame : Frame}

/-- An authenticated session knows that users are configured, and each command in its queue was
allowed to the user it still has. -/
structure Vetted (w : Front σ) : Prop where
  configured : w.session.authenticatedUser ≠ none → w.acl.everConfigured = true
  open_ : ∀ commands dirty, w.session.tx = .queuing commands dirty → w.session.inTransaction = true
  queue : ∀ commands dirty, w.session.tx = .queuing commands dirty →
    ∀ c ∈ commands, w.session.authenticatedUser = none ∨ w.Authorized c

theorem dispatchAndLogGated_idle (hidle : w.session.tx = .idle)
    (hconf : w.session.authenticatedUser ≠ none → w.acl.everConfigured = true) (frame : Frame) :
    (w.dispatchAndLogGated b frame).2.session.tx = .idle ∧
      ((w.dispatchAndLogGated b frame).2.session.authenticatedUser ≠ none →
        (w.dispatchAndLogGated b frame).2.acl.everConfigured = true) := by
  have hidentified {session' : Session} (hid : Identifies w.acl w.session session') :
      session'.tx = .idle ∧ (session'.authenticatedUser ≠ none → w.acl.everConfigured = true) := by
    refine ⟨hid.tx.trans hidle, fun huser => ?_⟩
    rcases hid.user with hsame | hnow
    · exact hconf (hsame ▸ huser)
    · exact hnow
  unfold dispatchAndLogGated
  split
  · exact ⟨hidle, hconf⟩
  · split
    · next session' hauth => exact hidentified (handleAuth_identifies hauth)
    · split
      · next acl' hacl =>
        exact ⟨hidle, fun huser => handleAcl_everConfigured hacl (hconf huser)⟩
      · split
        · next session' hhello => exact hidentified (handleHello_identifies hhello)
        · exact ⟨hidle, hconf⟩

theorem runQueued_idle (commands : List Frame) (w : Front σ) (hidle : w.session.tx = .idle)
    (hconf : w.session.authenticatedUser ≠ none → w.acl.everConfigured = true) :
    (runQueued b w commands).2.session.tx = .idle ∧
      ((runQueued b w commands).2.session.authenticatedUser ≠ none →
        (runQueued b w commands).2.acl.everConfigured = true) := by
  induction commands generalizing w with
  | nil => exact ⟨hidle, hconf⟩
  | cons c commands ih =>
    obtain ⟨hidle', hconf'⟩ := dispatchAndLogGated_idle (b := b) hidle hconf c
    exact ih _ hidle' hconf'

theorem vetted_of_idle (hidle : w.session.tx = .idle)
    (hconf : w.session.authenticatedUser ≠ none → w.acl.everConfigured = true) : w.Vetted := by
  refine ⟨hconf, fun commands dirty h => ?_, fun commands dirty h => ?_⟩
  · rw [hidle] at h
    cases h
  · rw [hidle] at h
    cases h

theorem dispatchAndLogGated_of_nameless (h : commandNameUpper frame = none) :
    (w.dispatchAndLogGated b frame).2.session = w.session ∧
      (w.dispatchAndLogGated b frame).2.acl = w.acl := by
  unfold dispatchAndLogGated
  rw [handleAuth_of_nameless h, handleAcl_of_nameless h, handleHello_of_nameless h]
  split <;> exact ⟨rfl, rfl⟩

theorem authorized_of_authGate {name : Bytes} (hconf : w.acl.everConfigured = true)
    (hname : commandNameUpper frame = some name) (hauth : name ≠ txt "AUTH")
    (hhello : name ≠ txt "HELLO") (hgate : authGate w.acl w.session frame = none) :
    w.Authorized frame := by
  have hexempt : ¬ (name = txt "AUTH" ∨ name = txt "HELLO") := by
    rintro (h | h)
    · exact hauth h
    · exact hhello h
  simp only [authGate, hconf, hname, hexempt, if_false, Bool.true_eq_false] at hgate
  split at hgate
  · cases hgate
  · next cached hcached =>
    split at hgate
    · cases hgate
    · next user huser =>
      obtain ⟨hfound, henabled⟩ := Option.filter_eq_some_iff.mp huser
      split at hgate
      · next hallowed => exact ⟨cached, user, name, hcached, hfound, henabled, hname, hallowed⟩
      · split at hgate <;> cases hgate

theorem Authorized.of_getUser {acl : AclStore} (h : w.Authorized frame)
    (hsame : ∀ cached, w.session.authenticatedUser = some cached →
      acl.getUser cached.username = w.acl.getUser cached.username) :
    ({ w with acl := acl } : Front σ).Authorized frame := by
  obtain ⟨cached, user, name, hcached, huser, hrest⟩ := h
  exact ⟨cached, user, name, hcached, (hsame cached hcached).trans huser, hrest⟩

theorem Vetted.of_acl {acl : AclStore} (h : w.Vetted)
    (hconf : w.acl.everConfigured = true → acl.everConfigured = true)
    (hsame : w.session.inTransaction = true → ∀ cached, w.session.authenticatedUser = some cached →
      acl.getUser cached.username = w.acl.getUser cached.username) :
    ({ w with acl := acl } : Front σ).Vetted := by
  refine ⟨fun huser => hconf (h.configured huser), h.open_, fun commands dirty hq c hc => ?_⟩
  rcases h.queue commands dirty hq c hc with hnone | hauth
  · exact .inl hnone
  · exact .inr (hauth.of_getUser (hsame (h.open_ commands dirty hq)))

theorem Vetted.of_session {session : Session} (h : w.Vetted)
    (huser : session.authenticatedUser = w.session.authenticatedUser)
    (hopen : ∀ commands dirty, session.tx = .queuing commands dirty → session.inTransaction = true)
    (hqueue : ∀ commands dirty, session.tx = .queuing commands dirty →
      ∀ c ∈ commands, w.session.authenticatedUser = none ∨ w.Authorized c) :
    ({ w with session := session } : Front σ).Vetted := by
  refine ⟨fun hsome => h.configured (huser ▸ hsome), hopen, fun commands dirty hq c hc => ?_⟩
  rcases hqueue commands dirty hq c hc with hnone | ⟨cached, user, name, hcached, hrest⟩
  · exact .inl (huser.trans hnone)
  · exact .inr ⟨cached, user, name, huser.trans hcached, hrest⟩

theorem handleMulti_vetted (h : w.Vetted) :
    ({ w with session := (handleMulti w.session).2 } : Front σ).Vetted := by
  unfold handleMulti
  split
  · exact h
  · refine h.of_session rfl (fun _ _ _ => rfl) fun commands dirty hq c hc => ?_
    cases hq
    cases hc

theorem handleDiscard_vetted (h : w.Vetted) :
    ({ w with session := (handleDiscard w.session).2 } : Front σ).Vetted := by
  unfold handleDiscard
  split
  · exact h
  · exact h.of_session rfl nofun nofun

theorem queueCommand_vetted (h : w.Vetted) {commands : List Frame} {dirty : Bool}
    (hq : w.session.tx = .queuing commands dirty) (name : Bytes)
    (hframe : w.session.authenticatedUser = none ∨ w.Authorized frame) :
    ({ w with session := (queueCommand w.session commands dirty name frame).2 } : Front σ).Vetted := by
  have hkept (dirty' : Bool) : ({ w with
      session := { w.session with tx := .queuing commands dirty' } } : Front σ).Vetted := by
    refine h.of_session rfl (fun _ _ _ => h.open_ commands dirty hq) fun commands' _ hq' => ?_
    cases hq'
    exact h.queue commands dirty hq
  unfold queueCommand
  split
  · exact hkept true
  · split
    · refine h.of_session rfl (fun _ _ _ => h.open_ commands dirty hq) fun commands' _ hq' c hc => ?_
      cases hq'
      rcases List.mem_append.mp hc with hold | hnew
      · exact h.queue commands dirty hq c hold
      · rw [List.mem_singleton.mp hnew]
        exact hframe
    · exact hkept true

theorem handleExec_vetted (h : w.Vetted) : (w.handleExec b).2.Vetted := by
  unfold handleExec takeQueue
  cases hq : w.session.tx with
  | idle => exact h
  | queuing commands dirty =>
    cases dirty with
    | true => exact vetted_of_idle rfl h.configured
    | false =>
      have hrun := runQueued_idle (b := b) commands
        { w with session := { w.session with tx := .idle, inTransaction := false } } rfl h.configured
      exact vetted_of_idle hrun.1 hrun.2

theorem dispatchAndLogInner_vetted (h : w.Vetted) (hs : w.Steady (.own frame)) :
    (w.dispatchAndLogInner b frame).2.Vetted := by
  unfold dispatchAndLogInner
  split
  · exact h
  · next hgate =>
    split
    · exact h
    · unfold interceptForTransaction
      cases hname : commandNameUpper frame with
      | none =>
        obtain ⟨hsession, hacl⟩ := dispatchAndLogGated_of_nameless (b := b) (w := w) hname
        have hkept : ({ w with rest := (w.dispatchAndLogGated b frame).2.rest } : Front σ).Vetted :=
          ⟨h.configured, h.open_, h.queue⟩
        rwa [← hsession, ← hacl] at hkept
      | some name =>
        dsimp only
        split
        · next reply session heq =>
          split at heq
          · cases heq
            exact handleMulti_vetted h
          · split at heq
            · cases heq
              exact handleDiscard_vetted h
            · split at heq
              · cases heq
              · split at heq
                · cases heq
                · next hopen =>
                  split at heq
                  · cases heq
                  · next commands dirty hq =>
                    cases heq
                    obtain ⟨hauth, hhello⟩ := hs.1 (h.open_ commands dirty hq)
                    rw [hname] at hauth hhello
                    refine queueCommand_vetted h hq name ?_
                    cases hconf : w.acl.everConfigured with
                    | false =>
                      left
                      by_contra hsome
                      exact absurd (h.configured hsome) (by simp [hconf])
                    | true =>
                      right
                      exact authorized_of_authGate hconf hname (fun hn => hauth (congrArg some hn))
                        (fun hn => hhello (congrArg some hn)) hgate
        · exact handleExec_vetted h
        · next heq =>
          have hidle : w.session.tx = .idle := by
            cases hq : w.session.tx with
            | idle => rfl
            | queuing commands dirty =>
              simp only [h.open_ commands dirty hq, hq, Bool.true_eq_false, if_false] at heq
              repeat (split at heq; cases heq)
              cases heq
          obtain ⟨hidle', hconf'⟩ := dispatchAndLogGated_idle (b := b) hidle h.configured frame
          exact vetted_of_idle hidle' hconf'

theorem step_vetted (h : w.Vetted) {e : FrontEvent σ} (hs : w.Steady e) : (w.step b e).Vetted := by
  cases e with
  | own frame => exact dispatchAndLogInner_vetted h hs
  | setUser username rawTokens =>
    unfold step
    dsimp only
    split
    · next acl hacl =>
      refine h.of_acl (fun _ => AclStore.everConfigured_setUser hacl) fun hopen cached hcached => ?_
      exact AclStore.getUser_setUser_of_ne hacl (hs hopen cached hcached)
    · exact h
  | delUser username =>
    refine h.of_acl (fun hconf => hconf) fun hopen cached hcached => ?_
    exact AclStore.getUser_delUser_of_ne _ (hs hopen cached hcached)
  | elsewhere rest => exact ⟨h.configured, h.open_, h.queue⟩

theorem mem_runQueued {commands : List Frame} {run : Frame × Frame}
    (h : run ∈ (runQueued b w commands).1) : run.1 ∈ commands := by
  induction commands generalizing w with
  | nil => cases h
  | cons c commands ih =>
    rcases List.mem_cons.mp h with rfl | hrest
    · exact List.mem_cons_self
    · exact List.mem_cons_of_mem c (ih hrest)

/-- In every run in which nobody touches the session's user while its transaction is open, what
`EXEC` executes is what the user is allowed when it executes. -/
theorem exec_permissions_enforced (b : Backend σ) (acl : AclStore) (rest : σ) {w : Front σ}
    (hrun : RunsTo (step b) Steady ⟨acl, .new, rest⟩ w) (frame : Frame)
    (hframe : w.Steady (.own frame)) : w.PermissionsEnforced b frame := by
  have hvetted : w.Vetted := by
    refine hrun.invariant (I := Vetted) (vetted_of_idle rfl fun h => absurd rfl h) ?_
    intro w e he hw
    exact step_vetted hw he
  intro hname hgate _ run hmem _
  have hconf := hframe.2 hname
  obtain ⟨cached, _, _, hcached, _⟩ := authorized_of_authGate hconf hname (by decide) (by decide) hgate
  unfold executes takeQueue at hmem
  cases hq : w.session.tx with
  | idle =>
    rw [hq] at hmem
    cases hmem
  | queuing commands dirty =>
    cases dirty with
    | true =>
      rw [hq] at hmem
      cases hmem
    | false =>
      rw [hq] at hmem
      rcases hvetted.queue commands false hq run.1 (mem_runQueued hmem) with hnone | hauth
      · rw [hcached] at hnone
        cases hnone
      · exact hauth

def recorder : Backend (List Frame) where
  argon := ⟨id, fun _ _ => true⟩
  clientId := 1
  role _ := txt "master"
  mode _ := txt "standalone"
  describe _ _ _ := .array []
  refuse _ _ := none
  perform log frame := (okReply, log ++ [frame])

def alice : AclUser := ⟨txt "alice", none, true, [.allCommands, .allKeys]⟩

def aliceOnly : AclStore := ⟨(∅ : HashMap Bytes AclUser).insert (txt "alice") alice, true⟩

def appendCommand : Frame := .command [txt "APPEND", txt "k", txt "v"]

def queuedAppend : Front (List Frame) :=
  ⟨aliceOnly, { Session.new with
    authenticatedUser := some alice, tx := .queuing [appendCommand] false, inTransaction := true }, []⟩

def authenticated : Front (List Frame) :=
  ⟨aliceOnly, { Session.new with authenticatedUser := some alice }, []⟩

def opened : Front (List Frame) :=
  ⟨aliceOnly, { Session.new with
    authenticatedUser := some alice, tx := .queuing [] false, inTransaction := true }, []⟩

theorem authGate_alice (session : Session) (huser : session.authenticatedUser = some alice)
    (frame : Frame) : authGate aliceOnly session frame = none := by
  have hallowed (name : Bytes) (keys : List Bytes) : alice.isAllowed name keys = true := by
    have hkey : alice.keyAllowed = fun _ => true := rfl
    rw [AclUser.isAllowed, hkey]
    exact Bool.and_eq_true_iff.mpr ⟨rfl, List.all_eq_true.mpr fun _ _ => rfl⟩
  unfold authGate
  rw [if_neg (show ¬ aliceOnly.everConfigured = false by decide)]
  split
  · rfl
  · split
    · rfl
    · rw [huser]
      have hfound : (aliceOnly.getUser alice.username).filter AclUser.enabled = some alice := rfl
      simp only [hfound, hallowed, if_true]

theorem queueing_runs : RunsTo (step recorder) Steady ⟨aliceOnly, .new, []⟩ queuedAppend := by
  have stepMulti : authenticated.step recorder (.own (.command [txt "MULTI"])) = opened := by
    have hgate := authGate_alice authenticated.session rfl (.command [txt "MULTI"])
    simp only [step, dispatchAndLogInner, show authenticated.acl = aliceOnly from rfl, hgate]
    rfl
  have stepAppend : opened.step recorder (.own appendCommand) = queuedAppend := by
    have hgate := authGate_alice opened.session rfl appendCommand
    simp only [step, dispatchAndLogInner, show opened.acl = aliceOnly from rfl, hgate]
    rfl
  have hstart : RunsTo (step recorder) Steady ⟨aliceOnly, .new, []⟩ ⟨aliceOnly, .new, []⟩ := .start
  have hauth : RunsTo (step recorder) Steady ⟨aliceOnly, .new, []⟩ authenticated :=
    hstart.next (.own (.command [txt "AUTH", txt "alice", txt "pw"])) ⟨nofun, fun _ => rfl⟩
  have hmulti : RunsTo (step recorder) Steady ⟨aliceOnly, .new, []⟩ opened :=
    stepMulti ▸ hauth.next (.own (.command [txt "MULTI"])) ⟨nofun, fun _ => rfl⟩
  exact stepAppend ▸
    hmulti.next (.own appendCommand) ⟨fun _ => ⟨by decide, by decide⟩, fun _ => rfl⟩

theorem executes_queuedAppend (acl : AclStore) :
    ({ queuedAppend with acl := acl } : Front (List Frame)).executes recorder =
      [(appendCommand, okReply)] := rfl

theorem exec_permissions_enforced_alice :
    queuedAppend.executes recorder = [(appendCommand, okReply)] ∧
      queuedAppend.PermissionsEnforced recorder (.command [txt "EXEC"]) :=
  ⟨executes_queuedAppend aliceOnly, exec_permissions_enforced recorder aliceOnly [] queueing_runs _
    ⟨fun _ => ⟨by decide, by decide⟩, fun _ => rfl⟩⟩

/-- `ACL SETUSER alice -append` between the queueing and `EXEC` does not keep the `APPEND` from being
executed. -/
theorem exec_not_always_authorized :
    ¬ ∀ (σ : Type) (b : Backend σ) (acl : AclStore) (rest : σ) (w : Front σ) (frame : Frame),
      RunsTo (step b) (fun _ _ => True) ⟨acl, .new, rest⟩ w → w.PermissionsEnforced b frame := by
  intro hclaim
  let revoked : Front (List Frame) := queuedAppend.step recorder (.setUser (txt "alice") [txt "-append"])
  have hrun : RunsTo (step recorder) (fun _ _ => True) ⟨aliceOnly, .new, []⟩ revoked :=
    (queueing_runs.mono fun _ _ _ => trivial).next _ trivial
  have henforced := hclaim _ recorder aliceOnly [] revoked (.command [txt "EXEC"]) hrun
  have hmem : (appendCommand, okReply) ∈ revoked.executes recorder := List.mem_singleton_self _
  obtain ⟨cached, user, name, hcached, huser, -, hname, hallowed⟩ :=
    henforced rfl (by rfl) rfl _ hmem (by rintro (h | h | h) <;> cases h)
  -- the entry stored now denies the command
  have hcached' : some alice = some cached := hcached
  have huser' : some { alice with rules := [.allCommands, .allKeys, .denyCommand (txt "APPEND")] } =
      some user := by
    cases hcached'
    exact huser
  have hname' : some (txt "APPEND") = some name := hname
  cases huser'
  cases hname'
  exact absurd hallowed (by decide)

end Front

end RocketMem
