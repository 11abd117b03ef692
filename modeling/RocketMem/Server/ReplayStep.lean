import RocketMem.Server.Ageing
import RocketMem.Server.LoggingProof

namespace RocketMem

open Option Dispatch Function Keyspace

variable {F : Type} [F64 F] {env env' : Env}

section

variable {raw : Bytes} {c : CommandName} (hname : commandName raw = some c) (args : List Bytes)

include hname

theorem frameTtl_command : frameTtl (.command (raw :: args)) = requestedTtl c args := by
  simp only [frameTtl, frameToArgs_command, hname, bind_some]

theorem misreadSetKey_command : misreadSetKey (.command (raw :: args)) =
    match args with
    | key :: _ :: words => if c = .set ∧ misread words = true then some key else none
    | _ => none := by
  unfold misreadSetKey
  rw [frameToArgs_command]
  rcases args with _ | ⟨key, _ | ⟨val, words⟩⟩
  · rfl
  · rfl
  · simp only [hname, Option.some.injEq]

end

section

variable {clock : Clock} {raw : Bytes}

theorem expireTarget_expire (h : upperWord raw = txt "EXPIRE") (n : Int) :
    expireTarget clock raw n = some (saturatingAdd clock.unixMs (saturatingMul n 1000)) :=
  if_pos h

theorem expireTarget_pexpire (h : upperWord raw = txt "PEXPIRE") (n : Int) :
    expireTarget clock raw n = some (saturatingAdd clock.unixMs n) := by
  rw [expireTarget, if_neg (by rw [h]; decide), if_pos h]

theorem expireTarget_expireat (h : upperWord raw = txt "EXPIREAT") (n : Int) :
    expireTarget clock raw n = some (saturatingMul n 1000) := by
  rw [expireTarget, if_neg (by rw [h]; decide), if_neg (by rw [h]; decide), if_pos h]

theorem expireTarget_pexpireat (h : upperWord raw = txt "PEXPIREAT") (n : Int) :
    expireTarget clock raw n = some n := by
  rw [expireTarget, if_neg (by rw [h]; decide), if_neg (by rw [h]; decide),
    if_neg (by rw [h]; decide), if_pos h]

theorem saturatingMul_inI64 (a b : Int) : InI64 (saturatingMul a b) := by
  unfold InI64 saturatingMul i64Min i64Max
  omega

end

theorem Slot.survive_expire {c c' : Clock} (hle : c.wall ≤ c'.wall) {t t' : Nat}
    (hsame : t = t' ∨ t ≤ c.wall ∧ t' ≤ c.wall) {s : Slot F}
    (hs : s.Doomed c'.wall → t ≤ c'.wall) :
    (s.expire c t).survive c'.wall = (s.survive c'.wall).expire c' t' := by
  by_cases hdoomed : s.Doomed c'.wall
  · have ht := hs hdoomed
    rw [survive_of_doomed hdoomed, expire_none]
    obtain ⟨v, d, rfl, -⟩ := hdoomed
    rw [expire_some]
    split
    · rfl
    · rw [survive_dated, if_pos ht]
  · rw [survive_of_not_doomed hdoomed]
    rcases s with _ | ⟨v, d⟩
    · rfl
    · rw [expire_some, expire_some]
      rcases hsame with rfl | ⟨ht, ht'⟩
      · by_cases hnow : t ≤ c.wall
        · rw [if_pos hnow, if_pos (hnow.trans hle), survive_none]
        · rw [if_neg hnow, survive_dated]
      · rw [if_pos ht, if_pos (ht'.trans hle), survive_none]

section

variable {words : List Bytes}

theorem setApplies_of_no_condition (h : hasCondition words = false) (s : Slot F) :
    setApplies words s = true := by
  obtain ⟨hnx, hxx⟩ := Bool.or_eq_false_iff.mp h
  simp [setApplies, hnx, hxx]

theorem hasCondition_of_flagWords (h : hasCondition (flagWords words) = true) :
    hasCondition words = true := by
  rw [hasCondition, Bool.or_eq_true] at h ⊢
  exact h.imp hasFlag_of_flagWords hasFlag_of_flagWords

theorem setApplies_survive {T : Nat} {s : Slot F}
    (hlive : hasCondition words = true → ¬ s.Doomed T) :
    setApplies words (s.survive T) = setApplies words s := by
  cases hcond : hasCondition words with
  | false => rw [setApplies_of_no_condition hcond, setApplies_of_no_condition hcond]
  | true => rw [Slot.survive_of_not_doomed (hlive hcond)]

theorem rewrittenSlot_later {c c' : Clock} (hle : c.wall ≤ c'.wall) (val : Bytes) {ms : Int}
    (httl : setTtl words = .ok (some ms)) (hfits : (c.wall : Int) + ms ≤ i64Max)
    {s : Slot F} (hlive : hasCondition words = true → ¬ s.Doomed c'.wall)
    (happ : setApplies words s = true) (hloses : ¬ (misread words = true ∧ s = none)) :
    Slot.expire c' (saturatingAdd c.unixMs ms).toNat
        (if setApplies (flagWords words) (s.survive c'.wall) then some (.string val, none)
        else s.survive c'.wall) =
      (setSlot c val (some ms)).survive c'.wall := by
  have htarget : c.wall + ms.toNat = (saturatingAdd c.unixMs ms).toNat ∨
      c.wall + ms.toNat ≤ c.wall ∧ (saturatingAdd c.unixMs ms).toNat ≤ c.wall := by
    rw [Clock.unixMs_eq]
    unfold saturatingAdd i64Min i64Max at *
    omega
  have hfresh : (setSlot c val (some ms)).survive c'.wall =
      Slot.expire c' (saturatingAdd c.unixMs ms).toNat (some ((.string val : Value F), none)) :=
    Slot.survive_expire hle htarget fun ⟨v, t, hv, _⟩ => by cases hv
  rw [hfresh]
  cases hkept : setApplies (flagWords words) (s.survive c'.wall) with
  | true => rfl
  | false =>
    have hcond : hasCondition words = true := by
      apply hasCondition_of_flagWords
      by_contra hno
      rw [setApplies_of_no_condition (Bool.not_eq_true _ ▸ hno)] at hkept
      cases hkept
    rw [Slot.survive_of_not_doomed (hlive hcond)] at hkept ⊢
    obtain ⟨⟨hnx, hnx', hxx⟩, hnone⟩ := (setApplies_flagWords happ).mp hkept
    -- the condition was misread, so the deadline had passed when it was asked for
    have hpast : ¬ 0 < ms := fun hpos =>
      hloses ⟨by simp [misread, httl, hpos, hnx, hnx', hxx], hnone⟩
    have hdue : (saturatingAdd c.unixMs ms).toNat ≤ c'.wall := by omega
    rw [hnone, Slot.expire_some, if_pos hdue]
    rfl

end

variable (hmem : env.maxmemory = none) (hmem' : env'.maxmemory = none)
  (hle : env.clock.wall ≤ env'.clock.wall) {ks : Keyspace F} {reply : Frame} {ks' : Keyspace F} {args : List Bytes} {raw : Bytes}

include hmem hmem' hle in
theorem applyAll_logSet_later (hname : commandName raw = some .set)
    (hrun : runKeyspace env.clock (set env args) ks = (some reply, ks'))
    (hok : reply.isError = false)
    (hfits : ∀ ms ∈ requestedTtl .set args, (env.clock.wall : Int) + ms ≤ i64Max)
    (hloses : ¬ LosesNx (.command (raw :: args)) ks)
    (hlive : ∀ k ∈ presenceKeys env'.clock.wall env.clock .set args,
      ¬ (ks k).Doomed env'.clock.wall) :
    applyAll env' (logSet env.clock ((raw :: args).map .bulk) reply) (ks.survive env'.clock.wall) =
      ks'.survive env'.clock.wall := by
  match args with
  | [] | [_] =>
    cases hrun
    cases hok
  | key :: val :: words =>
    rw [runKeyspace_set hmem] at hrun
    cases httl : setTtl words with
    | error e =>
      rw [httl, setTtl_error httl] at hrun
      cases hrun
      cases hok
    | ok ttl =>
      rw [httl] at hrun
      simp only [requestedTtl, httl] at hfits
      have hkey : hasCondition words = true → ¬ (ks key).Doomed env'.clock.wall :=
        fun hcond => hlive key (by simp [presenceKeys, hcond])
      have hverbatim : applyAll env' [.command (raw :: key :: val :: words)]
          (ks.survive env'.clock.wall) =
            if setApplies words (ks key) then
              update (ks.survive env'.clock.wall) key (setSlot env'.clock val ttl)
            else ks.survive env'.clock.wall := by
        rw [applyAll_cons, applyAll_nil, dispatch_command hname, ← setApplies_survive hkey]
        refine (congrArg Prod.snd (runKeyspace_set hmem' key val words _)).trans ?_
        rw [httl]
        exact apply_ite Prod.snd _ _ _
      by_cases happ : setApplies words (ks key) = true
      · simp only [happ, if_true, Prod.mk.injEq, Option.some.injEq] at hrun
        obtain ⟨rfl, rfl⟩ := hrun
        have hlog : logSet env.clock ((raw :: key :: val :: words).map .bulk) okReply =
            (rewriteSetTtlToPexpireat env.clock
              (.bulk raw :: .bulk key :: .bulk val :: words.map .bulk)).getD
                [.command (raw :: key :: val :: words)] := rfl
        rw [hlog, rewriteSetTtl_words env.clock (.bulk raw) key val httl, survive_update]
        cases ttl with
        | none =>
          rw [map_none, getD_none, hverbatim, if_pos happ]
          rfl
        | some ms =>
          rw [LosesNx, misreadSetKey_command hname] at hloses
          rw [map_some, getD_some]
          refine (applyAll_rewrittenSet hmem' hname key val words (saturatingAdd_inI64 _ _) _).trans
            (congrArg (update _ key) ?_)
          refine rewrittenSlot_later hle val httl (hfits ms rfl) hkey happ fun ⟨hmisread, hnone⟩ => ?_
          exact hloses ⟨key, by simp [hmisread], hnone⟩
      · simp only [happ, Bool.false_eq_true, if_false, Prod.mk.injEq, Option.some.injEq] at hrun
        obtain ⟨rfl, rfl⟩ := hrun
        refine hverbatim.trans ?_
        rw [if_neg happ]

omit hmem hmem' in
include hle in
theorem applyAll_expired_later (raw : Bytes) {key word : Bytes} (rest : List Bytes) {n target : Int}
    {t : Nat} (hn : parseI64 word = some n) (htarget : expireTarget env.clock raw n = some target)
    (hin : InI64 target)
    (hsame : t = target.toNat ∨ t ≤ env.clock.wall ∧ target.toNat ≤ env.clock.wall)
    (hlive : (ks key).Doomed env'.clock.wall → t ≤ env'.clock.wall) :
    applyAll env' (logExpire env.clock ((raw :: key :: word :: rest).map .bulk)
        (flagReply (ks key).isSome)) (ks.survive env'.clock.wall) =
      survive env'.clock.wall (update ks key ((ks key).expire env.clock t)) := by
  rw [survive_update, Slot.survive_expire hle hsame hlive,
    logExpire_words env.clock raw key rest hn htarget]
  rcases hslot : ks key with _ | e
  · have hgone : ks.survive env'.clock.wall key = none := by rw [survive, hslot]; rfl
    rw [Slot.survive_none, Slot.expire_none, update_missing hgone]
    rfl
  · simp only [isSome_some, if_true]
    rw [applyAll_cons, applyAll_nil, runKeyspace_pexpireatFrame key hin, survive, hslot]

include hle in
theorem applyAll_logExpireIn_later (name : String) (unit : Nat) (toMs : Int → Int)
    (htarget : ∀ n, expireTarget env.clock raw n = some (saturatingAdd env.clock.unixMs (toMs n)))
    (hms : ∀ key word rest n, args = key :: word :: rest →
      parseI64 word = some n → (env.clock.wall : Int) + n * unit ≤ i64Max ∧
        (env.clock.wall : Int) + toMs n ≤ i64Max ∧ (toMs n).toNat = n.toNat * unit)
    (hlive : ∀ key word rest n, args = key :: word :: rest → parseI64 word = some n →
      (ks key).Doomed env'.clock.wall → env.clock.wall + n.toNat * unit ≤ env'.clock.wall)
    (hrun : runKeyspace env.clock (expireIn env name unit args) ks = (some reply, ks'))
    (hok : reply.isError = false) :
    applyAll env' (logExpire env.clock ((raw :: args).map .bulk) reply)
        (ks.survive env'.clock.wall) = ks'.survive env'.clock.wall := by
  match args with
  | [] | [_] =>
    cases hrun
    cases hok
  | key :: word :: rest =>
    cases hn : parseI64 word with
    | none =>
      simp only [expireIn, hn] at hrun
      cases hrun
      cases hok
    | some n =>
      obtain ⟨hfits, hfits', hnat⟩ := hms key word rest n rfl hn
      rw [runKeyspace_expireIn name unit rest hn hfits] at hrun
      cases hrun
      have hsame : env.clock.wall + n.toNat * unit =
            (saturatingAdd env.clock.unixMs (toMs n)).toNat ∨
          env.clock.wall + n.toNat * unit ≤ env.clock.wall ∧
            (saturatingAdd env.clock.unixMs (toMs n)).toNat ≤ env.clock.wall := by
        rw [Clock.unixMs_eq, ← hnat]
        unfold saturatingAdd i64Min i64Max at *
        omega
      exact applyAll_expired_later hle raw rest hn (htarget n) (saturatingAdd_inI64 _ _) hsame
        (hlive key word rest n rfl hn)

include hle in
theorem applyAll_logExpireAtUnix_later (name : String) {toMs : Int → Int}
    (htarget : ∀ n, expireTarget env.clock raw n = some (toMs n))
    (hin : ∀ n, InI64 n → InI64 (toMs n))
    (hlive : ∀ key word rest n, args = key :: word :: rest → parseI64 word = some n →
      (ks key).Doomed env'.clock.wall → (toMs n).toNat ≤ env'.clock.wall)
    (hrun : runKeyspace env.clock (expireAtUnix env name toMs args) ks =
      (some reply, ks')) (hok : reply.isError = false) :
    applyAll env' (logExpire env.clock ((raw :: args).map .bulk) reply)
        (ks.survive env'.clock.wall) = ks'.survive env'.clock.wall := by
  match args with
  | [] | [_] =>
    cases hrun
    cases hok
  | key :: word :: rest =>
    cases hn : parseI64 word with
    | none =>
      simp only [expireAtUnix, hn] at hrun
      cases hrun
      cases hok
    | some n =>
      rw [runKeyspace_expireAtUnix name toMs rest hn] at hrun
      cases hrun
      exact applyAll_expired_later hle raw rest hn (htarget n) (hin n (inI64_of_parseI64 hn))
        (.inl rfl) (hlive key word rest n rfl hn)

include hmem hmem' in
theorem rename_later (hks : ks.Sound env.clock)
    (hks' : (ks.survive env'.clock.wall).Sound env'.clock)
    (hlive : ∀ k ∈ args.take 1, ¬ (ks k).Doomed env'.clock.wall)
    (hrun : runKeyspace env.clock (Dispatch.rename env args) ks = (some reply, ks'))
    (hok : reply.isError = false) :
    (runKeyspace env'.clock (Dispatch.rename env' args) (ks.survive env'.clock.wall)).2 =
      ks'.survive env'.clock.wall := by
  unfold Dispatch.rename at hrun ⊢
  split at hrun
  · next src dst rest =>
    have hsrc : ks.survive env'.clock.wall src = ks src :=
      Slot.survive_of_not_doomed (hlive src List.mem_cons_self)
    rw [runKeyspace_map, runKeyspace_rename hmem hks] at hrun
    rw [runKeyspace_map, runKeyspace_rename hmem' hks', hsrc]
    rcases hslot : ks src with _ | e
    · rw [hslot] at hrun
      cases hrun
      cases hok
    · rw [hslot] at hrun hsrc
      cases hrun
      dsimp only
      split
      · rfl
      · have he : (some e : Slot F) = Slot.survive env'.clock.wall (some e) := by
          rw [← hslot]
          exact hslot.trans hsrc.symm
        rw [move, move, survive_update, survive_update, ← he, Slot.survive_none]
  · cases hrun
    cases hok

include hmem hmem' in
theorem renamenx_later (hks : ks.Sound env.clock)
    (hks' : (ks.survive env'.clock.wall).Sound env'.clock)
    (hlive : ∀ k ∈ (args.drop 1).take 1, ¬ (ks k).Doomed env'.clock.wall)
    (hrun : runKeyspace env.clock (Dispatch.renamenx env args) ks = (some reply, ks'))
    (hok : reply.isError = false) :
    (runKeyspace env'.clock (Dispatch.renamenx env' args) (ks.survive env'.clock.wall)).2 =
      ks'.survive env'.clock.wall := by
  unfold Dispatch.renamenx at hrun ⊢
  split at hrun
  · next src dst rest =>
    have hdst : ks.survive env'.clock.wall dst = ks dst :=
      Slot.survive_of_not_doomed (hlive dst List.mem_cons_self)
    rw [runKeyspace_map, runKeyspace_renamenx hmem hks] at hrun
    rw [runKeyspace_map, runKeyspace_renamenx hmem' hks', hdst]
    rcases hslot : ks src with _ | e
    · rw [hslot] at hrun
      cases hrun
      cases hok
    · rw [hslot] at hrun
      by_cases htaken : (ks dst).isSome = true
      · simp only [htaken, if_true] at hrun ⊢
        cases hrun
        split <;> rfl
      · simp only [htaken, Bool.false_eq_true, if_false] at hrun ⊢
        cases hrun
        have hfree : ks dst = none := not_isSome_iff_eq_none.mp htaken
        by_cases hdoomed : (ks src).Doomed env'.clock.wall
        · have hgone : ks.survive env'.clock.wall src = none := Slot.survive_of_doomed hdoomed
          have hlost : Slot.survive env'.clock.wall (some e) = none := by
            rw [← hslot]
            exact hgone
          rw [hgone]
          dsimp only
          rw [move, survive_update, survive_update, hlost,
            Slot.survive_none, update_missing (hdst.trans hfree),
            update_missing hgone]
        · have hsrc : ks.survive env'.clock.wall src = some e :=
            (Slot.survive_of_not_doomed hdoomed).trans hslot
          have he : Slot.survive env'.clock.wall (some e) = some e := by
            rwa [survive, hslot] at hsrc
          rw [hsrc]
          dsimp only
          rw [move, move, survive_update, survive_update, he, Slot.survive_none]
  · cases hrun
    cases hok

include hmem' in
theorem applyAll_logSpop_later (args : List Bytes) (T : Nat) :
    applyAll env' (logSpop ((raw :: args).map .bulk) reply) (ks.survive T) =
      (applyAll env' (logSpop ((raw :: args).map .bulk) reply) ks).survive T := by
  unfold logSpop
  split
  · next member key hkey =>
    cases args with
    | nil => cases hkey
    | cons k rest =>
      cases hkey
      show (runKeyspace _ (dispatch env' (.command [txt "SREM", k, member])) _).2 =
        survive T (runKeyspace _ (dispatch env' (.command [txt "SREM", k, member])) ks).2
      rw [runKeyspace_sremOne hmem', runKeyspace_sremOne hmem', survive_update, Slot.survive_edit]
      rfl
  · rfl

section

variable {raw : Bytes} {c : CommandName} (hname : commandName raw = some c) (hw : c.isWrite = true)
  {args : List Bytes} (hrun : runKeyspace env.clock (arm env c args) ks = (some reply, ks'))
  (hok : reply.isError = false)
  (hlive : ∀ k ∈ presenceKeys env'.clock.wall env.clock c args, ¬ (ks k).Doomed env'.clock.wall)

include hmem hmem' hname hw hrun hok hlive

theorem applyAll_verbatim_later (ht : c.isTimed = false) (hspop : c ≠ .spop) :
    applyAll env' [.array ((raw :: args).map .bulk)] (ks.survive env'.clock.wall) =
      ks'.survive env'.clock.wall := by
  have hages := arm_ages (F := F) hmem hw ht hspop env'.clock.wall env.clock args env.clock
    env'.clock _ ks hlive
  have harm : arm env c args = (arm env' c args : EngineProgram F Frame) :=
    arm_env (hmem.trans hmem'.symm) (fun h => absurd (ht.symm.trans h) nofun) hw hspop args
  have hanswered : ¬ Failed IsError (some reply) := fun hfail =>
    absurd ((hfail reply rfl).symm.trans hok) nofun
  rw [hrun, harm] at hages
  exact (congrArg (fun p => (runKeyspace env'.clock p _).2) (dispatch_command hname args)).trans
    (hages hanswered)

theorem applyAll_logBlocking_later (hks : ks.Sound env.clock) (ht : c.isTimed = false)
    (hspop : c ≠ .spop) (hidle : PlainAtomic (F := F) ((keySpec c).select args) IsIdle
      (arm env c args)) :
    applyAll env' (logBlocking ((raw :: args).map .bulk) reply) (ks.survive env'.clock.wall) =
      ks'.survive env'.clock.wall := by
  have hverbatim := applyAll_verbatim_later hmem hmem' hname hw hrun hok hlive ht hspop
  have hsame := hidle.unchanged env.clock ks hks
  rw [hrun] at hsame
  unfold logBlocking
  split
  · obtain rfl : ks' = ks := hsame fun r hr => by cases hr; exact .inr rfl
    rfl
  · exact hverbatim

omit hmem hmem' hname hw hrun hok in
theorem deadline_of_doomed {key : Bytes} {rest : List Bytes} {t : Nat} (hargs : args = key :: rest)
    (hkeys : presenceKeys env'.clock.wall env.clock c args =
      if (requestedDeadline env.clock c args).any (fun d => decide ((env'.clock.wall : Int) < d))
      then args.take 1 else [])
    (hdeadline : (requestedDeadline env.clock c args).any
      (fun d => decide ((env'.clock.wall : Int) < d)) = decide (env'.clock.wall < t))
    (hkey : (ks key).Doomed env'.clock.wall) : t ≤ env'.clock.wall := by
  by_contra hlater
  refine hlive key ?_ hkey
  rw [hkeys, hdeadline, decide_eq_true (not_le.mp hlater), if_pos rfl, hargs]
  exact List.mem_cons_self

end

include hmem hmem' hle in
/-- Of what a command did, its log replayed later gives what has survived by then. -/
theorem applyAll_toLog_later (hboot : env'.clock.boot = env.clock.boot) (hks : ks.Sound env.clock)
    {frame : Frame} {c : CommandName} (hframe : extractWriteCommandName frame = some c)
    (hrun : runKeyspace env.clock (dispatch env frame) ks = (some reply, ks'))
    (hok : reply.isError = false) (hfits : TtlFits env.clock frame) (hloses : ¬ LosesNx frame ks)
    (hlive : ∀ k ∈ framePresenceKeys env'.clock.wall env.clock frame,
      ¬ (ks k).Doomed env'.clock.wall) :
    applyAll env' (toLog env.clock frame reply) (ks.survive env'.clock.wall) =
      ks'.survive env'.clock.wall := by
  obtain ⟨hw, ⟨raw, args, rfl, hname⟩ | hreject⟩ := write_frame_cases (F := F) hframe
  · have hks' := survive_sound hboot hks
    have hword := upperWord_of_commandName hname
    rw [toLog_command env.clock hname hw args hok]
    rw [TtlFits, frameTtl_command hname] at hfits
    rw [framePresenceKeys_command hname] at hlive
    rw [dispatch_command hname] at hrun
    have hdispatch : dispatch env' (.command (raw :: args)) =
        (Dispatch.arm env' c args : EngineProgram F Frame) := dispatch_command hname args
    have hreplay := congrArg
      (fun p => (runKeyspace env'.clock p (ks.survive env'.clock.wall)).2) hdispatch
    have hverbatim := applyAll_verbatim_later hmem hmem' hname hw hrun hok hlive
    have hblocking := applyAll_logBlocking_later hmem hmem' hname hw hrun hok hlive hks
    cases c with
    | set => exact applyAll_logSet_later hmem hmem' hle hname hrun hok hfits hloses hlive
    | spop =>
      refine (applyAll_logSpop_later hmem' args _).trans ?_
      rw [applyAll_logSpop hmem hmem' hks args hrun hok]
    | expire =>
      refine applyAll_logExpireIn_later hle "expire" 1000 (saturatingMul · 1000)
        (fun n => expireTarget_expire hword n) ?_ ?_ hrun hok
      · rintro key word rest n rfl hn
        have hfit := hfits (n * 1000) (by simp [requestedTtl, hn])
        have hwall := env.clock.wall_le
        unfold saturatingMul i64Min i64Max at *
        omega
      · rintro key word rest n rfl hn
        refine deadline_of_doomed hlive rfl rfl ?_
        simp only [requestedDeadline, hn, map_some, any_some, decide_eq_decide]
        omega
    | pexpire =>
      refine applyAll_logExpireIn_later hle "pexpire" 1 id
        (fun n => expireTarget_pexpire hword n) ?_ ?_ hrun hok
      · rintro key word rest n rfl hn
        have hfit := hfits n (by simp [requestedTtl, hn])
        simp only [Nat.cast_one, mul_one, id_eq, and_true, and_self]
        exact hfit
      · rintro key word rest n rfl hn
        refine deadline_of_doomed hlive rfl rfl ?_
        simp only [requestedDeadline, hn, map_some, any_some, decide_eq_decide]
        omega
    | expireat =>
      refine applyAll_logExpireAtUnix_later hle "expireat"
        (fun n => expireTarget_expireat hword n) (fun n _ => saturatingMul_inI64 n 1000) ?_ hrun hok
      rintro key word rest n rfl hn
      refine deadline_of_doomed hlive rfl rfl ?_
      simp only [requestedDeadline, hn, map_some, any_some, decide_eq_decide]
      omega
    | pexpireat =>
      refine applyAll_logExpireAtUnix_later hle "pexpireat"
        (fun n => expireTarget_pexpireat hword n) (fun _ hn => hn) ?_ hrun hok
      rintro key word rest n rfl hn
      refine deadline_of_doomed hlive rfl rfl ?_
      simp only [requestedDeadline, hn, any_some, decide_eq_decide]
      omega
    | rename => exact hreplay.trans (rename_later hmem hmem' hks hks' hlive hrun hok)
    | renamenx => exact hreplay.trans (renamenx_later hmem hmem' hks hks' hlive hrun hok)
    | blmove => exact hblocking rfl nofun (blmove_atomic hmem args)
    | brpoplpush => exact hblocking rfl nofun (brpoplpush_atomic hmem args)
    | blpop | brpop => exact hblocking rfl nofun (blockingPop_atomic hmem _ _ args)
    | _ => exact hverbatim rfl nofun
  · rw [hreject env] at hrun
    cases hrun
    cases hok

end RocketMem
