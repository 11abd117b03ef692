import RocketMem.Server.LogSimulation

namespace RocketMem

open List Option

variable {F : Type} [F64 F] {env env' : Env}

inductive Rewritten (raw key : Bytes) : Frame → Prop
  | deadline {t : Int} (ht : InI64 t) : Rewritten raw key (pexpireatFrame key t)
  | removal (member : Bytes) : Rewritten raw key (.command [txt "SREM", key, member])
  | plainSet (hname : commandName raw = some .set) (val : Bytes) (words : List Bytes) :
      Rewritten raw key (.command (raw :: key :: val :: flagWords words))

section

variable {raw : Bytes} {clock : Clock} {args : List Bytes} {reply : Frame}

theorem mem_logSpop {f : Frame} (hf : f ∈ logSpop ((raw :: args).map .bulk) reply) :
    ∃ key rest, args = key :: rest ∧ Rewritten raw key f := by
  unfold logSpop at hf
  split at hf
  · next member key hkey =>
    cases args with
    | nil => cases hkey
    | cons k rest =>
      cases hkey
      rw [mem_singleton.mp hf]
      exact ⟨k, rest, rfl, .removal member⟩
  · cases hf

theorem expireTarget_inI64 {n target : Int} (hn : InI64 n)
    (h : expireTarget clock raw n = some target) : InI64 target := by
  unfold expireTarget at h
  split at h
  · rw [← some.inj h]
    exact saturatingAdd_inI64 _ _
  · split at h
    · rw [← some.inj h]
      exact saturatingAdd_inI64 _ _
    · split at h
      · rw [← some.inj h]
        exact saturatingMul_inI64 _ _
      · split at h
        · rwa [← some.inj h]
        · cases h

theorem mem_logExpire {f : Frame} (hf : f ∈ logExpire clock ((raw :: args).map .bulk) reply) :
    ∃ key rest, args = key :: rest ∧ Rewritten raw key f := by
  unfold logExpire at hf
  split at hf
  · split at hf
    · rw [mem_toList] at hf
      rcases args with _ | ⟨key, _ | ⟨arg, rest⟩⟩
      · cases hf
      · cases hf
      · simp only [map_cons, rewriteExpireFamilyToPexpireat, bind_eq_bind, bind_eq_some_iff] at hf
        obtain ⟨n, hn, target, htarget, hframe⟩ := hf
        cases hframe
        exact ⟨key, arg :: rest, rfl, .deadline (expireTarget_inI64 (inI64_of_parseI64 hn) htarget)⟩
    · cases hf
  · cases hf

theorem logSet_cases (hname : commandName raw = some .set) :
    logSet clock ((raw :: args).map .bulk) reply = [.command (raw :: args)] ∨
      ∃ key rest, args = key :: rest ∧
        ∀ f ∈ logSet clock ((raw :: args).map .bulk) reply, Rewritten raw key f := by
  unfold logSet
  split
  · cases hrewrite : rewriteSetTtlToPexpireat clock ((raw :: args).map .bulk) with
    | none => exact .inl rfl
    | some frames =>
      right
      rcases args with _ | ⟨key, _ | ⟨val, words⟩⟩
      · cases hrewrite
      · cases hrewrite
      · refine ⟨key, val :: words, rfl, fun f hf => ?_⟩
        simp only [map_cons, rewriteSetTtlToPexpireat, dropTtlFlags_words, bind_eq_bind,
          bind_eq_some_iff] at hrewrite
        obtain ⟨ttl, -, ms, -, hframes⟩ := hrewrite
        cases hframes
        rcases mem_cons.mp hf with rfl | hf
        · exact .plainSet hname val words
        · rw [mem_singleton.mp hf]
          exact .deadline (saturatingAdd_inI64 _ _)
  · exact .inl rfl

/-- What can be logged for a command: nothing, the command itself, or frames on its first key that
say the same without chance or relative time. -/
theorem toLog_cases (clock : Clock) {c : CommandName} (hname : commandName raw = some c)
    (hw : c.isWrite = true) (args : List Bytes) (reply : Frame) :
    toLog clock (.command (raw :: args)) reply = [] ∨
      (toLog clock (.command (raw :: args)) reply = [.command (raw :: args)] ∧ c ≠ .spop) ∨
      ∃ key rest, args = key :: rest ∧ keySpec c = .first ∧
        ∀ f ∈ toLog clock (.command (raw :: args)) reply, Rewritten raw key f := by
  cases hok : reply.isError with
  | true => exact .inl (by simp [toLog, hok])
  | false =>
    rw [toLog_command clock hname hw args hok]
    have hall {frames : List Frame} (hkey : keySpec c = .first)
        (h : ∀ f ∈ frames, ∃ key rest, args = key :: rest ∧ Rewritten raw key f) :
        frames = [] ∨ (frames = [.command (raw :: args)] ∧ c ≠ .spop) ∨
          ∃ key rest, args = key :: rest ∧ keySpec c = .first ∧
            ∀ f ∈ frames, Rewritten raw key f := by
      cases frames with
      | nil => exact .inl rfl
      | cons f fs =>
        obtain ⟨key, rest, hargs, -⟩ := h f mem_cons_self
        refine .inr (.inr ⟨key, rest, hargs, hkey, fun f' hf' => ?_⟩)
        obtain ⟨key', rest', hargs', hf'⟩ := h f' hf'
        rw [hargs] at hargs'
        cases hargs'
        exact hf'
    have hblocking : logBlocking ((raw :: args).map .bulk) reply = [] ∨
        logBlocking ((raw :: args).map .bulk) reply = [.command (raw :: args)] := by
      unfold logBlocking
      split
      · exact .inl rfl
      · exact .inr rfl
    cases c with
    | spop => exact hall rfl fun f hf => mem_logSpop hf
    | expire | pexpire | expireat | pexpireat => exact hall rfl fun f hf => mem_logExpire hf
    | set =>
      rcases logSet_cases hname with hsame | ⟨key, rest, hargs, hall⟩
      · exact .inr (.inl ⟨hsame, by decide⟩)
      · exact .inr (.inr ⟨key, rest, hargs, rfl, hall⟩)
    | blmove | brpoplpush | blpop | brpop =>
      rcases hblocking with hnil | hsame
      · exact .inl hnil
      · exact .inr (.inl ⟨hsame, by decide⟩)
    | _ => exact .inr (.inl ⟨rfl, by decide⟩)

theorem Rewritten.commandKeys {key : Bytes} {f : Frame} (h : Rewritten raw key f) :
    commandKeys f = [key] := by
  cases h with
  | @deadline t => exact commandKeys_command commandName_pexpireat [key, showInt t]
  | removal member => exact commandKeys_command commandName_srem [key, member]
  | plainSet hname val words => exact commandKeys_command hname (key :: val :: flagWords words)

end

section

variable {frame reply : Frame} {c : CommandName}

theorem toLog_mem (clock : Clock) {words : List Bytes} {f : Frame}
    (hf : f ∈ toLog clock (.command words) reply) :
    f = .command words ∨ ∃ raw, ∃ key ∈ commandKeys (.command words), Rewritten raw key f := by
  cases words with
  | nil =>
    simp only [toLog, Frame.command, map_nil, extractWriteCommandName] at hf
    split at hf <;> cases hf
  | cons raw args =>
    cases hname : extractWriteCommandName (.command (raw :: args)) with
    | none =>
      simp only [toLog, hname] at hf
      split at hf <;> cases hf
    | some c =>
      obtain ⟨hc, hw⟩ := filter_eq_some_iff.mp hname
      rcases toLog_cases clock hc hw args reply with
        hnil | ⟨hsame, -⟩ | ⟨key, rest, rfl, hkey, hall⟩
      · rw [hnil] at hf
        cases hf
      · rw [hsame] at hf
        exact .inl (mem_singleton.mp hf)
      · refine .inr ⟨raw, key, ?_, hall f hf⟩
        rw [commandKeys_command hc, hkey]
        exact mem_singleton_self key

theorem toLog_keys (clock : Clock) {words : List Bytes} {f : Frame}
    (hf : f ∈ toLog clock (.command words) reply) :
    commandKeys f ⊆ commandKeys (.command words) := by
  rcases toLog_mem clock hf with rfl | ⟨raw, key, hkey, hrewritten⟩
  · exact List.Subset.refl _
  · rw [hrewritten.commandKeys]
    exact cons_subset.mpr ⟨hkey, nil_subset _⟩

end

def Returns (env : Env) : List Frame → Keyspace F → Prop
  | [], _ => True
  | frame :: frames, ks =>
    (runKeyspace env.clock (dispatch env frame) ks).1 ≠ none ∧
      Returns env frames (runKeyspace env.clock (dispatch env frame) ks).2

theorem returns_append (xs ys : List Frame) (ks : Keyspace F) :
    Returns env (xs ++ ys) ks ↔ Returns env xs ks ∧ Returns env ys (applyAll env xs ks) := by
  induction xs generalizing ks with
  | nil => simp [Returns]
  | cons x xs ih => simp only [cons_append, Returns, applyAll_cons, ih, and_assoc]

theorem Rewritten.returns (hmem : env.maxmemory = none) {raw key : Bytes} {f : Frame}
    (h : Rewritten raw key f) (ks : Keyspace F) :
    (runKeyspace env.clock (dispatch env f) ks).1 ≠ none := by
  cases h with
  | @deadline t ht =>
    have hcommand : pexpireatFrame key t = .command [txt "PEXPIREAT", key, showInt t] := rfl
    have hrun : runKeyspace env.clock
        (Dispatch.expireAtUnix env "pexpireat" id [key, showInt t]) ks = _ :=
      Dispatch.runKeyspace_expireAtUnix "pexpireat" id [] (parseI64_showInt t ht) ks
    rw [hcommand, dispatch_command commandName_pexpireat]
    intro hnone
    cases (congrArg Prod.fst hrun).symm.trans hnone
  | removal member =>
    have harm : Dispatch.arm env .srem [key, member] =
        (replyWith .integer <$> srem env key [member] : EngineProgram F Frame) := rfl
    rw [dispatch_command commandName_srem, harm, runKeyspace_map, srem,
      runKeyspace_withMutDelta hmem]
    exact some_ne_none _
  | plainSet hname val words =>
    have hrun := Dispatch.runKeyspace_set hmem key val (flagWords words) ks
    rw [Dispatch.setTtl_flagWords] at hrun
    dsimp only at hrun
    rw [dispatch_command hname]
    intro hnone
    have hreply := (congrArg Prod.fst hrun).symm.trans hnone
    split at hreply <;> cases hreply

theorem returns_rewritten (hmem : env.maxmemory = none) {raw key : Bytes} {frames : List Frame}
    (h : ∀ f ∈ frames, Rewritten raw key f) (ks : Keyspace F) : Returns env frames ks := by
  induction frames generalizing ks with
  | nil => trivial
  | cons f fs ih =>
    exact ⟨(h f mem_cons_self).returns hmem ks, ih (fun f' hf' => h f' (mem_cons_of_mem f hf')) _⟩

/-- Replaying what was logged for a command, at the same time, panics nowhere and reaches what the
command reached. An error leaves no trace and logs nothing. -/
theorem toLog_replays (hclock : env'.clock = env.clock) (hmem : env.maxmemory = none)
    (hmem' : env'.maxmemory = none) {ks ks' : Keyspace F} (hks : ks.Sound env.clock)
    {frame reply : Frame} (hframe : (extractWriteCommandName frame).isSome)
    (hrun : runKeyspace env.clock (dispatch env frame) ks = (some reply, ks'))
    (hfits : TtlFits env.clock frame) (hread : misreadSetKey frame = none) :
    Returns env' (toLog env.clock frame reply) ks ∧
      applyAll env' (toLog env.clock frame reply) ks = ks' := by
  obtain ⟨c, hc⟩ := isSome_iff_exists.mp hframe
  cases hok : reply.isError with
  | true =>
    have hsame := (dispatch_atomic hmem hc).unchanged ks hks
    rw [hrun] at hsame
    obtain rfl : ks' = ks := hsame fun r hr => by cases hr; exact hok
    have hnil : toLog env.clock frame reply = [] := by simp [toLog, hok]
    rw [hnil]
    exact ⟨trivial, rfl⟩
  | false =>
    have hloses : ¬ LosesNx frame ks := by
      rintro ⟨key, hkey, -⟩
      rw [hread] at hkey
      cases hkey
    refine ⟨?_, (applyAll_toLog_iff hclock hmem hmem' hks hc hrun hok hfits).mpr hloses⟩
    obtain ⟨hw, ⟨raw, args, rfl, hname⟩ | hreject⟩ := write_frame_cases (F := F) hc
    · rcases toLog_cases env.clock hname hw args reply with
        hnil | ⟨hsame, hspop⟩ | ⟨key, rest, -, -, hall⟩
      · rw [hnil]
        trivial
      · rw [hsame]
        refine ⟨?_, trivial⟩
        have henv : (dispatch env (.command (raw :: args)) : EngineProgram F Frame) =
            dispatch env' (.command (raw :: args)) :=
          dispatch_env (hmem.trans hmem'.symm) hclock.symm hc hspop
        rw [← henv, hclock, hrun]
        exact some_ne_none _
      · exact returns_rewritten hmem' hall ks
    · rw [hreject env] at hrun
      cases hrun
      cases hok

theorem Rewritten.command {raw key : Bytes} {f : Frame} (h : Rewritten raw key f) :
    ∃ words, f = .command words := by
  cases h with
  | @deadline t _ => exact ⟨[txt "PEXPIREAT", key, showInt t], rfl⟩
  | removal member => exact ⟨_, rfl⟩
  | plainSet _ val words => exact ⟨_, rfl⟩

theorem logged_commands {frame : Frame} {c : CommandName}
    (hc : extractWriteCommandName frame = some c) (clock : Clock) :
    (∀ reply, ∀ f ∈ toLog clock frame reply, ∃ words, f = .command words) ∨
      ∀ env : Env, dispatch env frame = (pure invalidRequest : EngineProgram F Frame) := by
  obtain ⟨hw, ⟨raw, args, rfl, hname⟩ | hreject⟩ := write_frame_cases (F := F) hc
  · refine .inl fun reply f hf => ?_
    rcases toLog_cases clock hname hw args reply with hnil | ⟨hsame, -⟩ | ⟨key, rest, -, -, hall⟩
    · rw [hnil] at hf
      cases hf
    · rw [hsame] at hf
      exact ⟨raw :: args, mem_singleton.mp hf⟩
    · exact (hall f hf).command
  · exact .inr hreject

end RocketMem
