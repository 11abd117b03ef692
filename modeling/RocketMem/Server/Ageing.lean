import RocketMem.Engine.Survival
import RocketMem.Server.WriteProof

namespace RocketMem

open Function

variable {F : Type} [F64 F] {env : Env}

theorem Ages.reply {α : Type} {sensitive : List Bytes} {p : EngineProgram F (EngineResult α)}
    (hp : Ages sensitive Refused p) (f : α → Frame) : Ages sensitive IsError (replyWith f <$> p) :=
  hp.map fun _ ⟨_, h⟩ => by
    rw [h]
    rfl

namespace Dispatch

variable (hmem : env.maxmemory = none) (args : List Bytes)

theorem runKeyspace_delKeys (c : Clock) (ks : List Bytes) (m : Keyspace F) :
    (runKeyspace c (countKeys Engine.del ks) m).2 = fun k => if k ∈ ks then none else m k := by
  induction ks generalizing m with
  | nil => simp [countKeys]
  | cons key ks ih =>
    have htail := ih (update m key none)
    have heffect : (runKeyspace c (countKeys Engine.del (key :: ks)) m).2 =
        (runKeyspace c (countKeys Engine.del ks) (update m key none)).2 := by
      rw [countKeys, runKeyspace_bind, Engine.del, runKeyspace_perform]
      dsimp only [KeyOp.onSlot]
      rw [runKeyspace_bind]
      rcases runKeyspace c (countKeys Engine.del ks) (update m key none) with ⟨_ | n, m'⟩
      · rfl
      · rfl
    rw [heffect, htail]
    funext k
    by_cases hk : k = key
    · subst hk
      simp
    · simp [hk]

theorem del_ages : Ages (F := F) [] IsError (del args) := by
  unfold del
  split
  · exact .ret _
  · have hdel : Ages (F := F) [] (fun _ => False) (countKeys Engine.del args) := by
      refine .of_effect _ (fun c ks => runKeyspace_delKeys c args ks) fun T ks => ?_
      funext k
      simp only [Keyspace.survive]
      split <;> rfl
    exact hdel.map fun _ h => h.elim

include hmem

theorem mset_ages : Ages (F := F) [] IsError (mset env args) := by
  unfold mset
  split
  · split
    · exact .ret _
    · exact (RocketMem.mset_ages hmem _).map fun _ h => h.elim
  · exact .ret _

theorem getset_ages : Ages (F := F) [] IsError (getset env args) := by
  unfold getset
  split
  · exact (RocketMem.getset_ages hmem _ _).reply _
  · exact .ret _

theorem hdel_ages : Ages (F := F) [] IsError (hdel env args) := by
  unfold hdel
  split
  · exact (inPlace_ages hmem _ _ _).reply _
  · exact .ret _

theorem rpop_ages : Ages (F := F) [] IsError (rpop env args) := by
  unfold rpop
  split
  · exact (inPlace_ages hmem _ _ _).reply _
  · exact .ret _

theorem lpop_ages : Ages (F := F) [] IsError (lpop env args) := by
  unfold lpop
  split
  · exact (inPlace_ages hmem _ _ _).reply _
  · exact .ret _

theorem lset_ages : Ages (F := F) [] IsError (lset env args) := by
  unfold lset
  split
  · split
    · exact .ret _
    · exact (inPlace_ages hmem _ _ _).reply _
  · exact .ret _

theorem ltrim_ages : Ages (F := F) [] IsError (ltrim env args) := by
  unfold ltrim
  split
  · split
    · exact (inPlace_ages hmem _ _ _).reply _
    · exact .ret _
  · exact .ret _

theorem lrem_ages : Ages (F := F) [] IsError (lrem env args) := by
  unfold lrem
  split
  · split
    · exact .ret _
    · exact (inPlace_ages hmem _ _ _).reply _
  · exact .ret _

theorem linsert_ages : Ages (F := F) [] IsError (linsert env args) := by
  unfold linsert
  split
  · split
    · exact (inPlace_ages hmem _ _ _).reply _
    · split
      · exact (inPlace_ages hmem _ _ _).reply _
      · exact .ret _
  · exact .ret _

theorem srem_ages : Ages (F := F) [] IsError (srem env args) := by
  unfold srem
  split
  · exact (inPlace_ages hmem _ _ _).reply _
  · exact .ret _

theorem zrem_ages : Ages (F := F) [] IsError (zrem env args) := by
  unfold zrem
  split
  · exact (inPlace_ages hmem _ _ _).reply _
  · exact .ret _

theorem sinterstore_ages : Ages (F := F) (args.drop 1) IsError (sinterstore env args) := by
  unfold sinterstore
  split
  · exact (storeResult_ages hmem _ ((getSets_looks _ fun _ hk => hk).bind fun _ => .ret _)).reply _
  · exact .ret _

theorem sunionstore_ages : Ages (F := F) (args.drop 1) IsError (sunionstore env args) := by
  unfold sunionstore
  split
  · exact (storeResult_ages hmem _ ((getSets_looks _ fun _ hk => hk).bind fun _ => .ret _)).reply _
  · exact .ret _

theorem sdiffstore_ages : Ages (F := F) (args.drop 1) IsError (sdiffstore env args) := by
  unfold sdiffstore
  split
  · exact (storeResult_ages hmem _ ((getSets_looks _ fun _ hk => hk).bind fun _ => .ret _)).reply _
  · exact .ret _

end Dispatch

def hasCondition (words : List Bytes) : Bool :=
  Dispatch.hasFlag "NX" words || Dispatch.hasFlag "XX" words

def requestedDeadline (clock : Clock) (c : CommandName) (args : List Bytes) : Option Int :=
  match c, args with
  | .expire, _ :: n :: _ => (parseI64 n).map (clock.wall + · * 1000)
  | .pexpire, _ :: n :: _ => (parseI64 n).map (clock.wall + ·)
  | .expireat, _ :: n :: _ => (parseI64 n).map (saturatingMul · 1000)
  | .pexpireat, _ :: n :: _ => parseI64 n
  | _, _ => none

/-- The keys whose presence decides what a command leaves behind at Unix time `T`. Commands that
overwrite or remove their keys, or that edit them in place, have none. -/
def presenceKeys (T : Nat) (clock : Clock) (c : CommandName) (args : List Bytes) : List Bytes :=
  match c with
  | .set => if hasCondition (args.drop 2) then args.take 1 else []
  | .expire | .pexpire | .expireat | .pexpireat =>
    if ((requestedDeadline clock c args).any fun t => decide ((T : Int) < t)) then args.take 1
    else []
  | .rename => args.take 1
  | .renamenx => (args.drop 1).take 1
  | .sinterstore | .sunionstore | .sdiffstore => args.drop 1
  | .del | .mset | .getset | .hdel | .lpop | .rpop | .lset | .ltrim | .lrem | .linsert | .srem
  | .spop | .zrem => []
  | c => (keySpec c).select args

def framePresenceKeys (T : Nat) (clock : Clock) (frame : Frame) : List Bytes :=
  match frameToArgs frame with
  | .ok (raw :: args) => ((commandName raw).map fun c => presenceKeys T clock c args).getD []
  | _ => []

theorem framePresenceKeys_command {raw : Bytes} {c : CommandName} (hname : commandName raw = some c)
    (T : Nat) (clock : Clock) (args : List Bytes) :
    framePresenceKeys T clock (.command (raw :: args)) = presenceKeys T clock c args := by
  simp only [framePresenceKeys, frameToArgs_command, hname, Option.map_some, Option.getD_some]

theorem arm_ages (hmem : env.maxmemory = none) {c : CommandName} (hw : c.isWrite = true)
    (ht : c.isTimed = false) (hspop : c ≠ .spop) (T : Nat) (clock : Clock) (args : List Bytes) :
    Ages (F := F) (presenceKeys T clock c args) IsError (Dispatch.arm env c args) := by
  cases c with
  | del => exact Dispatch.del_ages args
  | mset => exact Dispatch.mset_ages hmem args
  | getset => exact Dispatch.getset_ages hmem args
  | hdel => exact Dispatch.hdel_ages hmem args
  | lpop => exact Dispatch.lpop_ages hmem args
  | rpop => exact Dispatch.rpop_ages hmem args
  | lset => exact Dispatch.lset_ages hmem args
  | ltrim => exact Dispatch.ltrim_ages hmem args
  | lrem => exact Dispatch.lrem_ages hmem args
  | linsert => exact Dispatch.linsert_ages hmem args
  | srem => exact Dispatch.srem_ages hmem args
  | zrem => exact Dispatch.zrem_ages hmem args
  | sinterstore => exact Dispatch.sinterstore_ages hmem args
  | sunionstore => exact Dispatch.sunionstore_ages hmem args
  | sdiffstore => exact Dispatch.sdiffstore_ages hmem args
  | spop => exact absurd rfl hspop
  | set | expire | pexpire | expireat | pexpireat | rename | renamenx => cases ht
  | _ => exact .of_calls (arm_plain hmem hw ht args).calls

end RocketMem
