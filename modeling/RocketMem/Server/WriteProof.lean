import RocketMem.Server.ReadProof
import RocketMem.Server.TimedArms

namespace RocketMem

open Dispatch

variable {F : Type} [F64 F] {env : Env}

def CommandName.isTimed : CommandName → Bool
  | .set | .expire | .pexpire | .expireat | .pexpireat | .rename | .renamenx => true
  | _ => false

section

variable (hmem : env.maxmemory = none) {c : CommandName} (hw : c.isWrite = true)

include hmem hw

theorem arm_plain (ht : c.isTimed = false) (args : List Bytes) :
    PlainAtomic (F := F) ((keySpec c).select args) IsError (Dispatch.arm env c args) := by
  cases c with
  | append => exact Dispatch.append_atomic hmem args
  | setrange => exact Dispatch.setrange_atomic hmem args
  | getset => exact Dispatch.getset_atomic hmem args
  | mset => exact Dispatch.mset_atomic hmem args
  | msetnx => exact Dispatch.msetnx_atomic hmem args
  | incr => exact incr_atomic hmem args
  | decr => exact decr_atomic hmem args
  | incrby => exact incrby_atomic hmem args
  | del => exact del_atomic args
  | persist => exact Dispatch.persist_atomic args
  | hset => exact Dispatch.hset_atomic hmem args
  | hdel => exact Dispatch.hdel_atomic hmem args
  | hincrby => exact Dispatch.hincrby_atomic hmem args
  | hsetnx => exact Dispatch.hsetnx_atomic hmem args
  | rpush => exact Dispatch.rpush_atomic hmem args
  | lpush => exact Dispatch.lpush_atomic hmem args
  | rpop => exact (Dispatch.rpop_atomic hmem args).weaken fun _ => .inl
  | lpop => exact (Dispatch.lpop_atomic hmem args).weaken fun _ => .inl
  | lset => exact Dispatch.lset_atomic hmem args
  | ltrim => exact Dispatch.ltrim_atomic hmem args
  | lrem => exact Dispatch.lrem_atomic hmem args
  | linsert => exact Dispatch.linsert_atomic hmem args
  | lmove => exact (Dispatch.lmove_atomic hmem args).weaken fun _ => .inl
  | rpoplpush => exact (Dispatch.rpoplpush_atomic hmem args).weaken fun _ => .inl
  | blmove => exact (Dispatch.blmove_atomic hmem args).weaken fun _ => .inl
  | brpoplpush => exact (brpoplpush_atomic hmem args).weaken fun _ => .inl
  | blpop | brpop => exact (Dispatch.blockingPop_atomic hmem _ _ args).weaken fun _ => .inl
  | sadd => exact Dispatch.sadd_atomic hmem args
  | srem => exact Dispatch.srem_atomic hmem args
  | spop => exact (Dispatch.spop_atomic hmem args).weaken fun _ => .inl
  | sinterstore => exact Dispatch.sinterstore_atomic hmem args
  | sunionstore => exact Dispatch.sunionstore_atomic hmem args
  | sdiffstore => exact Dispatch.sdiffstore_atomic hmem args
  | zadd => exact Dispatch.zadd_atomic hmem args
  | zrem => exact Dispatch.zrem_atomic hmem args
  | zincrby => exact Dispatch.zincrby_atomic hmem args
  | set | expire | pexpire | expireat | pexpireat | rename | renamenx => cases ht
  | _ => exact absurd hw (by decide)

theorem arm_atomic (args : List Bytes) :
    Atomic (F := F) env.clock ((keySpec c).select args) IsError (Dispatch.arm env c args) := by
  cases ht : c.isTimed with
  | false => exact (arm_plain hmem hw ht args).toAtomic env.clock
  | true =>
    cases c with
    | set => exact set_atomic hmem args
    | expire => exact expireIn_atomic _ _ args
    | pexpire => exact expireIn_atomic _ _ args
    | expireat => exact Dispatch.expireAtUnix_atomic _ (fun n _ => saturatingMul_le n 1000) args
    | pexpireat => exact Dispatch.expireAtUnix_atomic _ (fun n hn => hn.2) args
    | rename => exact Dispatch.rename_atomic hmem args
    | renamenx => exact Dispatch.renamenx_atomic hmem args
    | _ => cases ht

end

variable {c : CommandName}

theorem dispatch_command {raw : Bytes} (h : commandName raw = some c)
    (args : List Bytes) :
    dispatch env (.command (raw :: args)) = (Dispatch.arm env c args : EngineProgram F Frame) := by
  obtain ⟨name, hname, hc⟩ := Option.bind_eq_some_iff.mp h
  simp only [dispatch, frameToArgs_command, hname, hc]

theorem commandKeys_command {raw : Bytes} (h : commandName raw = some c)
    (args : List Bytes) : commandKeys (.command (raw :: args)) = (keySpec c).select args := by
  have hbulk : (args.map Frame.bulk).filterMap Frame.bulk? = args := by
    induction args with
    | nil => rfl
    | cons a args ih => simp [Frame.bulk?, ih]
  simp only [commandKeys, Frame.command, List.map_cons, h, hbulk]

theorem write_frame_cases {frame : Frame}
    (h : extractWriteCommandName frame = some c) :
    c.isWrite = true ∧
      ((∃ raw args, frame = .command (raw :: args) ∧ commandName raw = some c) ∨
        ∀ env : Env, dispatch env frame = (pure invalidRequest : EngineProgram F Frame)) := by
  unfold extractWriteCommandName at h
  split at h
  · next name items =>
    obtain ⟨hname, hw⟩ := Option.filter_eq_some_iff.mp h
    refine ⟨hw, ?_⟩
    cases hargs : frameToArgs (.array (.bulk name :: items)) with
    | ok words =>
      have hframe := frameToArgs_ok hargs
      cases words with
      | nil => cases hframe
      | cons raw args =>
        left
        refine ⟨raw, args, hframe, ?_⟩
        simp only [Frame.command, List.map_cons, Frame.array.injEq, List.cons.injEq,
          Frame.bulk.injEq] at hframe
        rw [← hframe.1, hname]
    | error e =>
      right
      intro env
      have he : e = invalidRequest := by
        unfold frameToArgs at hargs
        dsimp only at hargs
        split at hargs <;> cases hargs
        rfl
      simp only [dispatch, hargs, he]
  · cases h

theorem dispatch_cases (frame : Frame) :
    (∃ raw c args, frame = .command (raw :: args) ∧ commandName raw = some c) ∨
      ∃ reply, ∀ env : Env, dispatch env frame = (pure reply : EngineProgram F Frame) := by
  cases hargs : frameToArgs frame with
  | error e => exact .inr ⟨e, fun env => by simp only [dispatch, hargs]⟩
  | ok words =>
    cases words with
    | nil =>
      exact .inr ⟨.error (txt "ERR empty command"), fun env => by simp only [dispatch, hargs]⟩
    | cons raw args =>
      cases hupper : upperName raw with
      | none =>
        exact .inr ⟨unknownCommand (fromUtf8Lossy raw), fun env => by
          simp only [dispatch, hargs, hupper]⟩
      | some name =>
        cases hname : CommandName.ofText name with
        | none =>
          exact .inr ⟨unknownCommand name, fun env => by simp only [dispatch, hargs, hupper, hname]⟩
        | some c =>
          have hcommand : commandName raw = some c := by
            rw [commandName, hupper, Option.bind_some, hname]
          exact .inl ⟨raw, c, args, frameToArgs_ok hargs, hcommand⟩

/-- A write changes its own keys only, and nothing if it fails. -/
theorem dispatch_atomic (hmem : env.maxmemory = none) {frame : Frame}
    (h : extractWriteCommandName frame = some c) :
    Atomic (F := F) env.clock (commandKeys frame) IsError (dispatch env frame) := by
  obtain ⟨hw, ⟨raw, args, rfl, hname⟩ | hreject⟩ := write_frame_cases (F := F) h
  · rw [dispatch_command hname, commandKeys_command hname]
    exact arm_atomic hmem hw args
  · rw [hreject env]
    exact .ret _

theorem dispatch_sound (hmem : env.maxmemory = none) (frame : Frame) {st : Store F}
    (h : (st.live env.clock).Sound env.clock) :
    ((runEngine env (dispatch env frame) st).2.live env.clock).Sound env.clock := by
  cases hname : extractWriteCommandName frame with
  | none => rwa [runEngine_reads (dispatch_reads hname) env st]
  | some c =>
    have hatomic := dispatch_atomic (F := F) hmem hname
    rw [(runEngine_live hatomic.touches env st).2]
    exact hatomic.sound _ h

end RocketMem
