import RocketMem.Server.Served

namespace RocketMem

open Option

variable {F : Type} [F64 F]

section

variable {env : Env} {frame : Frame}

theorem keysTouched_sscan {key : Bytes} (h : sscanKey frame = some key) (st : Store F) :
    keysTouched env (dispatch env frame) st = [key] := by
  obtain ⟨raw, cursor, options, opts, rfl, hname, hcursor, hoptions⟩ := frame_of_sscanKey h
  have harm : (dispatch env (.command (raw :: key :: cursor :: options)) : EngineProgram F Frame) =
      Dispatch.sscan env (key :: cursor :: options) := dispatch_command hname _
  rw [harm, sscan_accepted hcursor hoptions]
  change addressed (⟨.key key .get, _⟩ :: Program.trace _ _ _) [] = [key]
  rw [addressed, if_neg List.not_mem_nil]
  congr 1
  generalize ((EngineOp.key key .get).exec env st).1 = found
  cases found <;> rfl

theorem dispatch_exempt (hname : ∀ name, commandNameUpper frame = some name →
    name = txt "AUTH" ∨ name = txt "HELLO") :
    ∃ reply, ∀ env : Env, dispatch env frame = (pure reply : EngineProgram F Frame) := by
  rcases dispatch_cases (F := F) frame with ⟨raw, c, args, rfl, hc⟩ | hreply
  · obtain ⟨name, hupper, hofText⟩ := bind_eq_some_iff.mp hc
    have hcommand (c' : CommandName) (hc' : CommandName.ofText name = some c')
        (harm : ∀ env : Env, Dispatch.arm env c' args =
          (pure (unknownCommand c'.text) : EngineProgram F Frame)) :
        ∃ reply, ∀ env : Env, dispatch env (.command (raw :: args)) =
          (pure reply : EngineProgram F Frame) := by
      obtain rfl := some.inj (hofText.symm.trans hc')
      exact ⟨_, fun env => (dispatch_command hc args).trans (harm env)⟩
    rcases hname name hupper with rfl | rfl
    · exact hcommand .auth (by decide) fun _ => rfl
    · exact hcommand .hello (by decide) fun _ => rfl
  · exact hreply

theorem commandNameUpper_sscan {key : Bytes} (h : sscanKey frame = some key) :
    commandNameUpper frame = some (txt "SSCAN") := by
  obtain ⟨raw, cursor, options, opts, rfl, hname, -⟩ := frame_of_sscanKey h
  obtain ⟨name, hupper, htext⟩ := bind_eq_some_iff.mp hname
  exact hupper.trans (congrArg some (CommandName.text_of_ofText htext).symm)

end

namespace Served

def user (w : Served F) : Option AclUser :=
  w.session.authenticatedUser.bind fun cached =>
    (w.acl.getUser cached.username).filter AclUser.enabled

/-- Nothing about the store shows in the answer, and the store stays as it is. -/
structure Sealed (xs : Nat → Surroundings F) (w : Served F) (frame : Frame) : Prop where
  reply : ∀ st, ((w.withStore st).receive xs frame).result = (w.receive xs frame).result
  store : (w.receive xs frame).after.store = w.store
  stream : (w.receive xs frame).result ≠ some .handoff

def Permitted (xs : Nat → Surroundings F) (w : Served F) (user : AclUser) (frame : Frame) : Prop :=
  frame.isWide = false → (w.receive xs frame).touched ≠ [] →
    ∃ name, commandNameUpper frame = some name ∧
      user.isAllowed name (w.receive xs frame).touched = true

/-- Frames of a session without a user that is there and enabled are sealed off from the store;
those of any other touch only what the user may. -/
def AccessEnforced (w : Served F) (xs : Nat → Surroundings F) (frame : Frame) : Prop :=
  match w.user with
  | none => Sealed xs w frame
  | some user => Permitted xs w user frame

section

variable {xs : Nat → Surroundings F} {x : Surroundings F} {w : Served F} {frame : Frame}

theorem exempt_of_authGate (hconf : w.acl.everConfigured = true) (huser : w.user = none)
    (hgate : authGate w.acl w.session frame = none) (name : Bytes)
    (hname : commandNameUpper frame = some name) : name = txt "AUTH" ∨ name = txt "HELLO" := by
  by_contra hexempt
  simp only [authGate, hconf, hname, hexempt, if_false, Bool.true_eq_false] at hgate
  unfold user at huser
  split at hgate
  · cases hgate
  · next cached hcached =>
    rw [hcached, bind_some] at huser
    rw [huser] at hgate
    cases hgate

theorem allowed_of_authGate (hconf : w.acl.everConfigured = true) {user : AclUser}
    (huser : w.user = some user) (hgate : authGate w.acl w.session frame = none) {name : Bytes}
    (hname : commandNameUpper frame = some name)
    (hexempt : ¬ (name = txt "AUTH" ∨ name = txt "HELLO")) :
    user.isAllowed name (commandKeys frame) = true := by
  simp only [authGate, hconf, hname, hexempt, if_false, Bool.true_eq_false] at hgate
  unfold Served.user at huser
  obtain ⟨cached, hcached, hfound⟩ := bind_eq_some_iff.mp huser
  simp only [hcached, hfound] at hgate
  by_contra hdenied
  rw [if_neg hdenied] at hgate
  split at hgate <;> cases hgate

end

section

variable {xs : Nat → Surroundings F} {x : Surroundings F} {w : Served F} {frame : Frame}

theorem interceptions_withStore (hinfo : argsOf "INFO" frame = none) (st : Store F) :
    (w.withStore st).interceptions x frame =
      (w.interceptions x frame).map (Option.map fun r => (r.1, r.2.withStore st)) := by
  simp only [interceptions, withStore, handleInfo, hinfo, Option.map_none, List.map_cons,
    List.map_nil, Option.map_map]
  rfl

theorem dispatchAndLogGated_sealed (hinfo : argsOf "INFO" frame = none)
    (hpure : ∃ reply, ∀ env : Env, dispatch env frame = (pure reply : EngineProgram F Frame)) :
    (∀ st, ((w.withStore st).dispatchAndLogGated x frame).result =
        (w.dispatchAndLogGated x frame).result) ∧
      (w.dispatchAndLogGated x frame).after.store = w.store := by
  obtain ⟨reply, hreply⟩ := hpure
  constructor
  · intro st
    have hfirst : ((w.withStore st).interceptions x frame).findSome? id =
        ((w.interceptions x frame).findSome? id).map fun r => (r.1, r.2.withStore st) := by
      rw [interceptions_withStore hinfo, List.findSome?_map, List.map_findSome?]
      rfl
    unfold dispatchAndLogGated
    rw [hfirst]
    cases (w.interceptions x frame).findSome? id with
    | some r => rfl
    | none =>
      dsimp only [Option.map_none, withStore]
      split
      · rfl
      · simp only [dispatchLogged, hreply x.env]
        rfl
  · rcases dispatchAndLogGated_cases x w frame with ⟨_, w', h, hstore⟩ | ⟨-, w', hstore, h⟩
    · rw [h, hstore]
    · rw [h, dispatchLogged, hreply x.env]
      exact hstore

theorem dispatchAndLog_sealed (xs : Nat → Surroundings F)
    (hexempt : authGate w.acl w.session frame = none → ∀ name, commandNameUpper frame = some name →
      name = txt "AUTH" ∨ name = txt "HELLO") :
    (∀ st, ((w.withStore st).dispatchAndLog xs frame).result =
        (w.dispatchAndLog xs frame).result) ∧
      (w.dispatchAndLog xs frame).after.store = w.store := by
  rcases dispatchAndLog_cases xs w frame with ⟨reply, session, h⟩ | ⟨hpass, htx⟩
  · have hnow := h w.store
    change w.dispatchAndLog xs frame = _ at hnow
    refine ⟨fun st => ?_, ?_⟩
    · rw [h st, hnow]
    · rw [hnow]
      rfl
  · have hnamed {name : Bytes} (hname : commandNameUpper frame = some name) :
        name = txt "AUTH" ∨ name = txt "HELLO" := hexempt hpass.1 name hname
    rcases htx with hexec | hproceed
    · rcases hnamed (interceptForTransaction_exec hexec) with h | h <;> exact absurd h (by decide)
    · have hgated (st : Store F) : (w.withStore st).dispatchAndLog xs frame =
          (w.withStore st).dispatchAndLogGated (xs 0) frame :=
        dispatchAndLog_of_proceed (w := w.withStore st) hpass hproceed xs
      have hnow : w.dispatchAndLog xs frame = w.dispatchAndLogGated (xs 0) frame := hgated w.store
      have hinfo : argsOf "INFO" frame = none := by
        refine argsOf_eq_none (fun hname => ?_) (by decide) (by decide)
        rcases hnamed hname with h | h <;> exact absurd h (by decide)
      obtain ⟨hreply, hstore⟩ := dispatchAndLogGated_sealed (w := w) (x := xs 0) hinfo
        (dispatch_exempt fun _ => hnamed)
      refine ⟨fun st => ?_, ?_⟩
      · rw [hgated st, hnow, hreply st]
      · rw [hnow, hstore]

theorem receive_sealed (hconf : w.acl.everConfigured = true) (huser : w.user = none) :
    Sealed xs w frame := by
  have hexempt (hgate : authGate w.acl w.session frame = none) (name : Bytes)
      (hname : commandNameUpper frame = some name) := exempt_of_authGate hconf huser hgate name hname
  rcases receive_cases xs w frame with ⟨reply, h⟩ | ⟨hpsync, hgate, -⟩ | h
  · have hnow : w.receive xs frame = _ := h w.store
    constructor
    · intro st
      rw [h st, hnow]
    · rw [hnow]
      rfl
    · rw [hnow]
      nofun
  · have hname : commandNameUpper frame = some (txt "PSYNC") := by
      unfold isPsyncCommand at hpsync
      split at hpsync
      · exact upperName_of_asciiUpper (of_decide_eq_true hpsync) (by decide) (by decide)
      · cases hpsync
    rcases hexempt hgate _ hname with h | h <;> exact absurd h (by decide)
  · obtain ⟨hreply, hstore⟩ := dispatchAndLog_sealed xs hexempt
    have hnow : w.receive xs frame = (w.dispatchAndLog xs frame).answered := h w.store
    constructor
    · intro st
      rw [h st, hnow, Outcome.answered, Outcome.answered, hreply st]
    · rw [hnow]
      exact hstore
    · rw [hnow, Outcome.answered]
      cases (w.dispatchAndLog xs frame).result <;> nofun

end

variable {xs : Nat → Surroundings F} {w : Served F} {frame : Frame}

theorem receive_touched (hidle : w.session.tx = .idle) (h : (w.receive xs frame).touched ≠ []) :
    w.Passes frame ∧
      (w.receive xs frame).touched =
        keysTouched (xs 0).env (dispatch (xs 0).env frame) w.store := by
  rcases receive_cases xs w frame with ⟨reply, hreceive⟩ | ⟨-, -, hreceive⟩ | hreceive
  · have hnow : w.receive xs frame = _ := hreceive w.store
    rw [hnow] at h
    exact absurd rfl h
  · have hnow : w.receive xs frame = _ := hreceive w.store
    rw [hnow] at h
    exact absurd rfl h
  · have hnow : w.receive xs frame = (w.dispatchAndLog xs frame).answered := hreceive w.store
    rw [hnow] at h ⊢
    change (w.dispatchAndLog xs frame).touched ≠ [] at h
    change _ ∧ (w.dispatchAndLog xs frame).touched = _
    rcases dispatchAndLog_cases xs w frame with ⟨reply, session, hdispatch⟩ | ⟨hpass, htx⟩
    · have hanswered : w.dispatchAndLog xs frame = _ := hdispatch w.store
      rw [hanswered] at h
      exact absurd rfl h
    · refine ⟨hpass, ?_⟩
      rcases htx with hexec | hproceed
      · rw [dispatchAndLog_of_exec hpass hexec, handleExec, takeQueue, hidle] at h
        exact absurd rfl h
      · rw [dispatchAndLog_of_proceed hpass hproceed] at h ⊢
        rcases dispatchAndLogGated_cases (xs 0) w frame with ⟨_, _, hgated, -⟩ | ⟨-, w', hst, hgated⟩
        · rw [hgated] at h
          exact absurd rfl h
        · rw [hgated, ← hst]
          rfl

/-- An `SSCAN` whose key the user may not touch, and which gets through the session's gates. -/
def Bypass (w : Served F) (frame : Frame) : Prop :=
  ∃ user key, w.user = some user ∧ sscanKey frame = some key ∧ w.Passes frame ∧
    user.keyAllowed key = false

theorem receive_sscan (xs : Nat → Surroundings F) (hflag : w.session.inTransaction = false)
    {key : Bytes} (hkey : sscanKey frame = some key) (hpass : w.Passes frame) :
    (w.receive xs frame).touched = [key] := by
  have hname := commandNameUpper_sscan hkey
  have hother (name : String) (h : txt "SSCAN" ≠ txt name) :
      commandNameUpper frame ≠ some (txt name) := by
    rw [hname]
    exact fun hsame => h (some.inj hsame)
  have hproceed : interceptForTransaction w.session frame = .proceed := by
    refine interceptForTransaction_proceed hflag fun name hmem => hother name ?_
    revert name
    decide
  have hgated : w.dispatchAndLogGated (xs 0) frame = w.dispatchLogged (xs 0) frame := by
    refine dispatchAndLogGated_of_unintercepted ?_ (fun name hmem => hother name ?_) ?_
    · obtain ⟨raw, cursor, options, opts, rfl, hsscan, -⟩ := frame_of_sscanKey hkey
      refine refuse_eq_none (commandKeys_command hsscan _) ?_
      simp only [extractWriteCommandName, Frame.command, List.map_cons, hsscan]
      decide
    · revert name
      decide
    · intro name hupper
      rw [some.inj (hupper.symm.trans hname)]
      decide
  have hreceive : w.receive xs frame = (w.dispatchAndLog xs frame).answered := by
    refine receive_of_plain (fun name hmem => hother name ?_) xs
    revert name
    decide
  rw [hreceive, dispatchAndLog_of_proceed hpass hproceed, hgated]
  exact keysTouched_sscan hkey w.store

theorem receive_permitted (hconf : w.acl.everConfigured = true) (hidle : w.session.tx = .idle)
    {user : AclUser} (huser : w.user = some user) (hbypass : ¬ w.Bypass frame) :
    Permitted xs w user frame := by
  intro hwide htouched
  obtain ⟨hpass, hkeys⟩ := receive_touched hidle htouched
  have hexempt : ¬ ∀ name, commandNameUpper frame = some name →
      name = txt "AUTH" ∨ name = txt "HELLO" := by
    intro hexempt
    obtain ⟨reply, hreply⟩ := dispatch_exempt (F := F) hexempt
    rw [hkeys, hreply] at htouched
    exact htouched rfl
  push Not at hexempt
  obtain ⟨name, hname, hnot⟩ := hexempt
  have hallowed := allowed_of_authGate hconf huser hpass.1 hname (not_or.mpr hnot)
  obtain ⟨hcommand, hdeclared⟩ := Bool.and_eq_true_iff.mp hallowed
  refine ⟨name, hname, ?_⟩
  rw [AclUser.isAllowed, hkeys, hcommand, Bool.true_and]
  cases hsscan : sscanKey frame with
  | none =>
    have hdispatch : ActsWithin (xs 0).env (commandKeys frame)
        (dispatch (xs 0).env frame : EngineProgram F Frame) := dispatch_within hwide hsscan
    have hwithin := hdispatch.keysTouched w.store
    exact List.all_eq_true.mpr fun k hk => List.all_eq_true.mp hdeclared k (hwithin hk)
  | some key =>
    rw [keysTouched_sscan hsscan, List.all_cons, List.all_nil, Bool.and_true]
    by_contra hdenied
    exact hbypass ⟨user, key, huser, hsscan, hpass, Bool.eq_false_iff.mpr hdenied⟩

end Served

/-- Access control lets nothing through but an `SSCAN` of a key that the user may not touch. -/
theorem accessEnforced_iff (xs : Nat → Surroundings F) (w : Served F) (frame : Frame)
    (hconf : w.acl.everConfigured = true) (hidle : w.session.tx = .idle)
    (hflag : w.session.inTransaction = false) : w.AccessEnforced xs frame ↔ ¬ w.Bypass frame := by
  unfold Served.AccessEnforced
  split
  · next huser =>
    refine ⟨fun _ hbypass => ?_, fun _ => Served.receive_sealed hconf huser⟩
    obtain ⟨user, -, hsome, -⟩ := hbypass
    cases huser.symm.trans hsome
  · next user huser =>
    refine ⟨fun hpermitted hbypass => ?_, Served.receive_permitted hconf hidle huser⟩
    obtain ⟨user', key, huser', hkey, hpass, hdenied⟩ := hbypass
    obtain rfl := some.inj (huser.symm.trans huser')
    have htouched := Served.receive_sscan xs hflag hkey hpass
    have hwide : frame.isWide = false := by
      obtain ⟨raw, cursor, options, opts, rfl, hname, -⟩ := frame_of_sscanKey hkey
      rw [Frame.isWide, frameCommand_command, hname]
      rfl
    obtain ⟨name, -, hallowed⟩ := hpermitted hwide (by rw [htouched]; exact List.cons_ne_nil _ _)
    rw [htouched, AclUser.isAllowed, List.all_cons, hdenied, Bool.false_and,
      Bool.and_false] at hallowed
    cases hallowed

def bob : AclUser := ⟨txt "bob", none, true, [.allCommands, .keyPattern (txt "a:*")]⟩

def servedToBob : Served Score :=
  { Served.fresh with
    acl := ⟨(∅ : HashMap Bytes AclUser).insert (txt "bob") bob, true⟩
    session := { Session.new with authenticatedUser := some bob } }

theorem user_servedToBob : servedToBob.user = some bob := rfl

theorem accessEnforced_bob :
    servedToBob.AccessEnforced (fun _ => .standalone) (.command [txt "GET", txt "a:1"]) ∧
      servedToBob.AccessEnforced (fun _ => .standalone) (.command [txt "GET", txt "b:1"]) := by
  have hget (key : Bytes) : ¬ servedToBob.Bypass (.command [txt "GET", key]) := by
    rintro ⟨_, _, -, hkey, -⟩
    cases hkey
  exact ⟨(accessEnforced_iff _ _ _ rfl rfl rfl).mpr (hget _),
    (accessEnforced_iff _ _ _ rfl rfl rfl).mpr (hget _)⟩

/-- `SSCAN b:1 0` gets through to a key that is not for `bob`. -/
theorem sscan_not_enforced :
    ¬ servedToBob.AccessEnforced (fun _ => .standalone)
      (.command [txt "SSCAN", txt "b:1", txt "0"]) := by
  have hpass : servedToBob.Passes (.command [txt "SSCAN", txt "b:1", txt "0"]) := ⟨rfl, rfl⟩
  have htouched : (servedToBob.receive (fun _ => .standalone)
      (.command [txt "SSCAN", txt "b:1", txt "0"])).touched = [txt "b:1"] :=
    Served.receive_sscan _ rfl rfl hpass
  intro henforced
  unfold Served.AccessEnforced at henforced
  rw [user_servedToBob] at henforced
  obtain ⟨name, -, hallowed⟩ := henforced rfl (by rw [htouched]; nofun)
  rw [htouched] at hallowed
  have hdenied : bob.keyAllowed (txt "b:1") = false := by decide
  rw [AclUser.isAllowed, List.all_cons, hdenied, Bool.false_and, Bool.and_false] at hallowed
  cases hallowed

end RocketMem
