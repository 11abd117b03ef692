import RocketMem.Server.ReplayStep

namespace RocketMem

open Function Dispatch

variable {F : Type} [F64 F] {env env' : Env}

section

variable {ks : Keyspace F} {reply : Frame} {ks' : Keyspace F}

theorem applyAll_logSet_ne (hmem : env.maxmemory = none) (hmem' : env'.maxmemory = none)
    {raw : Bytes} (hname : commandName raw = some .set) {key val : Bytes} {words : List Bytes}
    (hrun : runKeyspace env.clock (set env (key :: val :: words)) ks = (some reply, ks'))
    (hmisread : misread words = true) (hnone : ks key = none) :
    applyAll env' (logSet env.clock ((raw :: key :: val :: words).map .bulk) reply) ks ≠ ks' := by
  simp only [misread, Bool.and_eq_true, Bool.not_eq_true'] at hmisread
  obtain ⟨⟨hpositive, hnx, hnx'⟩, hxx⟩ := hmisread
  have happ : setApplies words (ks key) = true := by
    simp [setApplies, hnx, hnone]
  have hkept : setApplies (flagWords words) (ks key) = false :=
    (setApplies_flagWords happ).mpr ⟨⟨hnx, hnx', hxx⟩, hnone⟩
  rw [runKeyspace_set hmem] at hrun
  split at hpositive
  · next ms httl =>
    have hlater : ¬ env.clock.wall + ms.toNat ≤ env.clock.wall := by
      have := of_decide_eq_true hpositive
      omega
    simp only [httl, happ, if_true, Prod.mk.injEq, Option.some.injEq] at hrun
    obtain ⟨rfl, rfl⟩ := hrun
    have hlog : logSet env.clock ((raw :: key :: val :: words).map .bulk) okReply =
        [.command (raw :: key :: val :: flagWords words),
          pexpireatFrame key (saturatingAdd env.clock.unixMs ms)] := by
      have hrewrite := rewriteSetTtl_words env.clock (.bulk raw) key val httl
      exact congrArg (·.getD [.command (raw :: key :: val :: words)]) hrewrite
    intro hsame
    rw [hlog] at hsame
    have hslot := congrFun ((applyAll_rewrittenSet hmem' hname key val words
      (saturatingAdd_inI64 _ _) ks).symm.trans hsame) key
    rw [update_self, update_self, hkept, hnone, setSlot,
      Slot.expire_some, if_neg hlater] at hslot
    cases hslot
  · cases hpositive

theorem applyAll_toLog_iff (hclock : env'.clock = env.clock) (hmem : env.maxmemory = none)
    (hmem' : env'.maxmemory = none) (hks : ks.Sound env.clock) {frame : Frame}
    {c : CommandName} (hframe : extractWriteCommandName frame = some c)
    (hrun : runKeyspace env.clock (dispatch env frame) ks = (some reply, ks'))
    (hok : reply.isError = false) (hfits : TtlFits env.clock frame) :
    applyAll env' (toLog env.clock frame reply) ks = ks' ↔ ¬ LosesNx frame ks := by
  constructor
  · rintro hsame ⟨key, hkey, hnone⟩
    obtain ⟨hw, ⟨raw, args, rfl, hname⟩ | hreject⟩ := write_frame_cases (F := F) hframe
    · rw [misreadSetKey_command hname] at hkey
      split at hkey
      · next key val words =>
        obtain ⟨⟨rfl, hmisread⟩, hsome⟩ := (Option.ite_none_right_eq_some).mp hkey
        obtain rfl := Option.some.inj hsome
        rw [toLog_command env.clock hname hw _ hok] at hsame
        rw [dispatch_command hname] at hrun
        exact applyAll_logSet_ne hmem hmem' hname hrun hmisread hnone hsame
      · cases hkey
    · rw [hreject env] at hrun
      cases hrun
      cases hok
  · intro hloses
    have hks' : Keyspace.Sound env.clock ks' := by
      have hsound := (dispatch_atomic hmem hframe).sound ks hks
      rwa [hrun] at hsound
    have hlive : ∀ k, ¬ (ks k).Doomed env'.clock.wall := hclock ▸ hks.not_doomed
    have hlater := applyAll_toLog_later hmem hmem' (le_of_eq (congrArg Clock.wall hclock.symm))
      (congrArg Clock.boot hclock) hks hframe hrun hok hfits hloses fun k _ => hlive k
    rwa [hclock, hks.survive_self, hks'.survive_self] at hlater

end

/-- The frames logged for a command reproduce it: from one store, replaying them reaches what the
command reached, to the last key, value and deadline. The replaying server draws its own random
choices. -/
def LogSimulates (env env' : Env) (st : Store F) (frame reply : Frame) : Prop :=
  (dispatchAll env' (toLog env.clock frame reply) st).live env.clock =
    (runEngine env (dispatch env frame) st).2.live env.clock

theorem logSimulates_iff_applyAll (hclock : env'.clock = env.clock)
    (hmem : env.maxmemory = none) (hmem' : env'.maxmemory = none) (st : Store F) {frame : Frame}
    {c : CommandName} (hframe : extractWriteCommandName frame = some c) (reply : Frame) :
    LogSimulates env env' st frame reply ↔
      applyAll env' (toLog env.clock frame reply) (st.live env.clock) =
        (runKeyspace env.clock (dispatch env frame) (st.live env.clock)).2 := by
  have hreplay := dispatchAll_live hmem' (toLog env.clock frame reply) st
  have heffect := (runEngine_live (dispatch_atomic (F := F) hmem hframe).touches env st).2
  rw [hclock] at hreplay
  rw [LogSimulates, hreplay, heffect]

/-- Every write that is answered without an error is reproduced by what is logged for it, unless
it is a SET on a missing key whose `NX` the rewriter drops while an `XX` stays. -/
theorem log_simulates_iff (hclock : env'.clock = env.clock) (hmem : env.maxmemory = none)
    (hmem' : env'.maxmemory = none) (st : Store F) (hst : (st.live env.clock).Sound env.clock)
    (frame reply : Frame) (hwrite : (extractWriteCommandName frame).isSome)
    (hreply : (runEngine env (dispatch env frame) st).1 = some reply)
    (hok : reply.isError = false) (hfits : TtlFits env.clock frame) :
    LogSimulates env env' st frame reply ↔ ¬ LosesNx frame (st.live env.clock) := by
  obtain ⟨c, hframe⟩ := Option.isSome_iff_exists.mp hwrite
  have hresult := (runEngine_live (dispatch_atomic (F := F) hmem hframe).touches env st).1
  rw [logSimulates_iff_applyAll hclock hmem hmem' st hframe reply]
  refine applyAll_toLog_iff hclock hmem hmem' hst hframe ?_ hok hfits
  exact Prod.ext (hresult.symm.trans hreply) rfl

variable {words : List Bytes}

theorem commandName_set : commandName (txt "SET") = some .set := by decide

def setFrame (key val : Bytes) (words : List Bytes) : Frame :=
  .command (txt "SET" :: key :: val :: words)

theorem setFrame_isWrite (key val : Bytes) (words : List Bytes) :
    extractWriteCommandName (setFrame key val words) = some .set :=
  extractWriteCommandName_command commandName_set (by decide) _

theorem runKeyspace_setFrame (hmem : env.maxmemory = none) (key val : Bytes)
    {ttl : Option Int} (httl : setTtl words = .ok ttl) {ks : Keyspace F}
    (happ : setApplies words (ks key) = true) :
    runKeyspace env.clock (dispatch env (setFrame key val words)) ks =
      (some okReply, update ks key (setSlot env.clock val ttl)) := by
  have hset := runKeyspace_set hmem key val words ks
  simp only [httl, happ, if_true] at hset
  exact (congrArg (runKeyspace env.clock · ks) (dispatch_command commandName_set _)).trans hset

theorem runEngine_setFrame (hmem : env.maxmemory = none) (key val : Bytes)
    {ttl : Option Int} (httl : setTtl words = .ok ttl) {st : Store F}
    (happ : setApplies words (st.live env.clock key) = true) :
    (runEngine env (dispatch env (setFrame key val words)) st).1 = some okReply := by
  rw [(runEngine_live (dispatch_atomic hmem (setFrame_isWrite key val words)).touches env st).1,
    runKeyspace_setFrame hmem key val httl happ]

theorem ttlFits_setFrame {clock : Clock} {key val : Bytes} {ms : Int}
    (httl : setTtl words = .ok (some ms)) (hms : (clock.wall : Int) + ms ≤ i64Max) :
    TtlFits clock (setFrame key val words) := by
  intro ms' hms'
  rw [setFrame, frameTtl_command commandName_set, requestedTtl, httl] at hms'
  cases hms'
  exact hms

theorem losesNx_setFrame (key val : Bytes) (words : List Bytes) (ks : Keyspace F) :
    LosesNx (setFrame key val words) ks ↔ misread words = true ∧ ks key = none := by
  rw [LosesNx, setFrame, misreadSetKey_command commandName_set]
  simp

theorem sound_new (c : Clock) : ((Store.new : Store F).live c).Sound c := Keyspace.sound_empty c

def plainWords : List Bytes := ["EX", "10", "NX"].map txt

/-- `EX 10 PX NX XX`: the rewriter takes `NX` for the value of `PX`. -/
def misreadWords : List Bytes := ["EX", "10", "PX", "NX", "XX"].map txt

theorem setTtl_of_ex {n : Int}
    (h : flagValue "EX" words = some (some n)) :
    setTtl words = .ok (some (saturatingMul n 1000)) := by
  rw [setTtl, h]

theorem setTtl_plainWords : setTtl plainWords = .ok (some (saturatingMul 10 1000)) :=
  setTtl_of_ex (by decide)

theorem setTtl_misreadWords : setTtl misreadWords = .ok (some (saturatingMul 10 1000)) :=
  setTtl_of_ex (by decide)

theorem ttlFits_plain : TtlFits Env.still.clock (setFrame (txt "k") (txt "v") plainWords) :=
  ttlFits_setFrame setTtl_plainWords (by decide)

theorem runEngine_plain :
    (runEngine Env.still (dispatch Env.still
      (setFrame (txt "k") (txt "v") plainWords)) (Store.new : Store Score)).1 = some okReply :=
  runEngine_setFrame rfl _ _ setTtl_plainWords (by decide)

theorem log_simulates_plainSet :
    LogSimulates Env.still Env.still (Store.new : Store Score)
      (setFrame (txt "k") (txt "v") plainWords) okReply := by
  refine (log_simulates_iff rfl rfl rfl Store.new (sound_new _) _ okReply
    (Option.isSome_of_eq_some (setFrame_isWrite _ _ _))
    runEngine_plain rfl ttlFits_plain).mpr ?_
  rw [losesNx_setFrame]
  decide

theorem ttlFits_misread : TtlFits Env.still.clock (setFrame (txt "k") (txt "v") misreadWords) :=
  ttlFits_setFrame setTtl_misreadWords (by decide)

theorem runEngine_misread :
    (runEngine Env.still (dispatch Env.still
      (setFrame (txt "k") (txt "v") misreadWords)) (Store.new : Store Score)).1 = some okReply :=
  runEngine_setFrame rfl _ _ setTtl_misreadWords (by decide)

theorem not_logSimulates_misread :
    ¬ LogSimulates Env.still Env.still (Store.new : Store Score)
      (setFrame (txt "k") (txt "v") misreadWords) okReply := by
  have hframe := setFrame_isWrite (txt "k") (txt "v") misreadWords
  intro hsim
  rw [logSimulates_iff_applyAll rfl rfl rfl _ hframe] at hsim
  have hmissing : (Store.new : Store Score).live Env.still.clock (txt "k") = none := rfl
  have happ : setApplies misreadWords
      ((Store.new : Store Score).live Env.still.clock (txt "k")) = true := by
    decide
  have hrun := runKeyspace_setFrame (rfl : Env.still.maxmemory = none) (txt "k") (txt "v")
    setTtl_misreadWords happ
  rw [hrun] at hsim
  have hkept := (applyAll_toLog_iff rfl rfl rfl (sound_new _) hframe hrun rfl ttlFits_misread).mp hsim
  exact hkept ((losesNx_setFrame _ _ _ _).mpr ⟨by decide, hmissing⟩)

theorem log_not_always_simulates :
    ¬ ∀ (env env' : Env) (st : Store Score) (frame reply : Frame),
      env'.clock = env.clock → env.maxmemory = none → env'.maxmemory = none →
      (st.live env.clock).Sound env.clock → (extractWriteCommandName frame).isSome →
      (runEngine env (dispatch env frame) st).1 = some reply → reply.isError = false →
      TtlFits env.clock frame → LogSimulates env env' st frame reply := by
  intro h
  refine not_logSimulates_misread (h Env.still Env.still Store.new _ okReply rfl rfl
    rfl (sound_new _) ?_ runEngine_misread rfl ttlFits_misread)
  exact Option.isSome_of_eq_some (setFrame_isWrite _ _ _)

end RocketMem
