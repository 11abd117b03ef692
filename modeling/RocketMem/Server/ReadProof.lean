import RocketMem.Engine.Keyspace
import RocketMem.Server.Dispatch

namespace RocketMem

variable {F : Type} [F64 F] {env : Env} {α : Type}

/-- Operations that change nothing a client can see. -/
def EngineOp.IsRead : EngineOp F → Prop
  | key _ op =>
    match op with
    | .get | .existsKey | .withRef | .ttl => True
    | _ => False
  | _ => True

theorem EngineOp.IsRead.exec_live {o : EngineOp F} (h : o.IsRead) (env : Env) (st : Store F) :
    (o.exec env st).2.live env.clock = st.live env.clock := by
  cases o with
  | key k op =>
    refine (KeyOp.exec_live env.clock k st op).2.trans ?_
    cases op with
    | get | existsKey | withRef | ttl => exact Function.update_eq_self k _
    | _ => exact h.elim
  | _ => rfl

theorem runEngine_reads {p : EngineProgram F α} (hp : p.Calls EngineOp.IsRead)
    (env : Env) (st : Store F) : (runEngine env p st).2.live env.clock = st.live env.clock :=
  Program.run_invariant hp (I := fun st' : Store F => st'.live env.clock = st.live env.clock)
    (fun _ ho st' hst' => (ho.exec_live env st').trans hst') rfl

theorem EngineOp.IsRead.onKeyspace_eq {o : EngineOp F} (h : o.IsRead) (c : Clock)
    (ks : Keyspace F) : (o.onKeyspace c ks).2 = ks := by
  cases o with
  | key k op =>
    cases op with
    | get | existsKey | withRef | ttl => exact Function.update_eq_self k _
    | _ => exact h.elim
  | _ => rfl

theorem runKeyspace_reads {p : EngineProgram F α} (hp : p.Calls EngineOp.IsRead)
    (c : Clock) (ks : Keyspace F) : (runKeyspace c p ks).2 = ks :=
  Program.run_invariant hp (I := fun ks' : Keyspace F => ks' = ks)
    (fun _ ho ks' hks' => (ho.onKeyspace_eq c ks').trans hks') rfl

abbrev Reads {α : Type} (p : EngineProgram F α) : Prop := p.Calls EngineOp.IsRead

abbrev ReadsOf {α : Type} (keys : List Bytes) (p : EngineProgram F α) : Prop :=
  p.Calls fun o => o.IsRead ∧ o.On (· ∈ keys)

theorem ReadsOf.reads {keys : List Bytes} {p : EngineProgram F α}
    (h : ReadsOf keys p) : Reads p := h.mono fun _ => And.left

theorem ReadsOf.on {keys : List Bytes} {p : EngineProgram F α} (h : ReadsOf keys p) :
    p.Calls (EngineOp.On (· ∈ keys)) := h.mono fun _ => And.right

theorem ReadsOf.mono {keys keys' : List Bytes} {p : EngineProgram F α}
    (h : ReadsOf keys p) (hk : keys ⊆ keys') : ReadsOf keys' p := by
  refine Program.Calls.mono (fun o ho => ⟨ho.1, ?_⟩) h
  cases o with
  | key k op => exact hk ho.2
  | _ => exact ho.2.elim

section

variable {R : Type} (key : Bytes)

theorem keyOp_reads {k : Bytes} {op : KeyOp F} (h : (EngineOp.key k op).IsRead) :
    ReadsOf [k] (Engine.perform k op) := .perform ⟨h, List.mem_singleton_self k⟩

theorem get_reads : ReadsOf [key] (Engine.get key : EngineProgram F _) := keyOp_reads trivial

theorem withRef_reads : ReadsOf [key] (Engine.withRef key : EngineProgram F _) :=
  keyOp_reads trivial

theorem existsKey_reads :
    ReadsOf [key] (Engine.existsKey key : EngineProgram F _) := keyOp_reads trivial

theorem ttl_reads : ReadsOf [key] (Engine.ttl key : EngineProgram F _) := keyOp_reads trivial

theorem view_reads (absent : R) (f : Value F → EngineResult R) :
    ReadsOf [key] (view key absent f) := by
  refine (withRef_reads key).bind fun v => ?_
  split <;> exact .ret _

theorem getrange_reads (a b : Int) : ReadsOf [key] (getrange key a b : EngineProgram F _) := by
  refine (get_reads key).bind fun v => ?_
  split
  · exact .ret _
  · dsimp only
    split <;> exact .ret _
  · exact .ret _

theorem mget_reads (keys : List Bytes) : ReadsOf keys (mget keys : EngineProgram F _) := by
  induction keys with
  | nil => exact .ret _
  | cons k keys ih =>
    exact ((get_reads k).mono (by simp)).bind fun _ => (ih.mono (by simp)).bind fun _ => .ret _

theorem hgetall_reads : ReadsOf [key] (hgetall key : EngineProgram F _) := by
  refine (get_reads key).bind fun v => ?_
  split <;> exact .ret _

theorem getSet_reads : ReadsOf [key] (getSet key : EngineProgram F _) := by
  refine (get_reads key).bind fun v => ?_
  split <;> exact .ret _

theorem getSets_reads (keys : List Bytes) : ReadsOf keys (getSets keys : EngineProgram F _) := by
  induction keys with
  | nil => exact .ret _
  | cons k keys ih =>
    refine ((getSet_reads k).mono (by simp)).bind fun r => ?_
    split
    · exact .ret _
    · exact (ih.mono (by simp)).bind fun _ => .ret _

theorem keyType_reads : ReadsOf [key] (keyType key : EngineProgram F _) :=
  (get_reads key).bind fun _ => .ret _

theorem overShards_calls {α : Type} {ok : EngineOp F → Prop}
    {f : Fin shardCount → EngineProgram F α} (hf : ∀ i, (f i).Calls ok) :
    (Engine.overShards f).Calls ok := by
  unfold Engine.overShards
  generalize List.finRange shardCount = shards
  induction shards with
  | nil => exact .ret _
  | cons i shards ih =>
    rw [List.mapM_cons]
    exact (hf i).bind fun _ => ih.bind fun _ => .ret _

theorem shardOp_reads {o : EngineOp F} (h : o.IsRead) : Reads (Program.perform o) := .perform h

theorem keys_reads : Reads (Engine.keys : EngineProgram F _) :=
  (overShards_calls fun i => shardOp_reads (o := .shardKeys i) trivial).bind fun _ => .ret _

theorem keyCounts_reads : Reads (Engine.keyCounts : EngineProgram F _) :=
  (overShards_calls fun i => shardOp_reads (o := .shardCounts i) trivial).bind fun _ => .ret _

theorem scan_reads (cursor : Nat) : Reads (Engine.scan cursor : EngineProgram F _) := by
  unfold Engine.scan
  split
  · exact Program.Calls.bind (.perform trivial) fun _ => .ret _
  · exact .ret _

end

namespace Dispatch

theorem countKeys_reads {test : Bytes → EngineProgram F Bool} (h : ∀ k, ReadsOf [k] (test k))
    (keys : List Bytes) : ReadsOf keys (countKeys test keys) := by
  induction keys with
  | nil => exact .ret _
  | cons k keys ih =>
    exact ((h k).mono (by simp)).bind fun _ => (ih.mono (by simp)).bind fun _ => .ret _

theorem filterByType_reads (typeFilter : Option Bytes) (keys : List Bytes) :
    Reads (filterByType typeFilter keys : EngineProgram F _) := by
  induction keys with
  | nil => exact .ret _
  | cons k keys ih =>
    cases typeFilter with
    | none => exact ih.bind fun _ => .ret _
    | some t => exact ((keyType_reads k).reads.map _).bind fun _ => ih.bind fun _ => .ret _

section

variable (args : List Bytes)

theorem hscan_reads : ReadsOf (args.take 1) (hscan env args : EngineProgram F _) := by
  unfold hscan
  split
  · split
    · exact .ret _
    · split
      · exact .ret _
      · exact (hgetall_reads _).map _
  · exact .ret _

theorem sscan_reads : ReadsOf (args.take 1) (sscan env args : EngineProgram F _) := by
  unfold sscan
  split
  · split
    · exact .ret _
    · split
      · exact .ret _
      · exact (getSet_reads _).map _
  · exact .ret _

theorem scan_reads : Reads (scan args : EngineProgram F _) := by
  unfold scan
  split
  · split
    · exact .ret _
    · split
      · exact .ret _
      · exact (RocketMem.scan_reads _).bind fun r => (filterByType_reads _ _).bind fun _ => .ret _
  · exact .ret _

theorem commandInfo_reads (keys : List Bytes) :
    ReadsOf keys (commandInfo args : EngineProgram F _) := by
  unfold commandInfo
  split
  · exact .ret _
  · split
    · exact .ret _
    · split
      · split <;> exact .ret _
      · exact .ret _

theorem memory_reads : ReadsOf ((args.drop 1).take 1) (memory args : EngineProgram F _) := by
  unfold memory
  split
  · exact .ret _
  · split
    · split
      · exact .ret _
      · exact (withRef_reads _).map _
    · exact .ret _

theorem object_reads : ReadsOf ((args.drop 1).take 1) (object args : EngineProgram F _) := by
  unfold object
  split
  · exact .ret _
  · split
    · split
      · exact .ret _
      · exact (withRef_reads _).map _
    · exact .ret _

theorem debug_reads (keys : List Bytes) : ReadsOf keys (debug args : EngineProgram F _) := by
  unfold debug
  split
  · exact .ret _
  · split
    · split
      · exact .ret _
      · split
        · exact .ret _
        · split
          · exact .ret _
          · split <;> exact .ret _
    · exact .ret _

theorem lindex_reads : ReadsOf (args.take 1) (lindex args : EngineProgram F _) := by
  unfold lindex
  split
  · split
    · exact .ret _
    · exact (view_reads _ _ _).map _
  · exact .ret _

theorem getrange_reads : ReadsOf (args.take 1) (getrange args : EngineProgram F _) := by
  unfold getrange
  split
  · split
    · exact (RocketMem.getrange_reads _ _ _).map _
    · exact .ret _
  · exact .ret _

theorem lrange_reads : ReadsOf (args.take 1) (lrange args : EngineProgram F _) := by
  unfold lrange
  split
  · split
    · exact (view_reads _ _ _).map _
    · exact .ret _
  · exact .ret _

theorem zrange_reads : ReadsOf (args.take 1) (zrange args : EngineProgram F _) := by
  unfold zrange
  split
  · split
    · exact (view_reads _ _ _).map _
    · exact .ret _
  · exact .ret _

end

def isWide : CommandName → Bool
  | .keys | .scan | .randomkey | .dbsize => true
  | _ => false

theorem arm_readsOf {c : CommandName} (hw : c.isWrite = false) (hwide : isWide c = false)
    (args : List Bytes) :
    ReadsOf (if c = .sscan then args.take 1 else (keySpec c).select args)
      (arm env c args : EngineProgram F _) := by
  have pick {f : Handler F} (h : ∀ k rest, ReadsOf [k] (f (k :: rest)))
      (h' : ReadsOf [] (f [])) (args : List Bytes) : ReadsOf (args.take 1) (f args) := by
    cases args with
    | nil => exact h'
    | cons k rest => exact h k rest
  have pickTwo {f : Handler F}
      (h : ∀ k w rest, ReadsOf [k] (f (k :: w :: rest))) (h' : ∀ k, ReadsOf [k] (f [k]))
      (h'' : ReadsOf [] (f [])) (args : List Bytes) : ReadsOf (args.take 1) (f args) :=
    pick (fun k rest => by cases rest with
      | nil => exact h' k
      | cons w rest => exact h k w rest) h'' args
  have pickAll {f : Handler F}
      (h : ∀ k rest, ReadsOf (k :: rest) (f (k :: rest))) (h' : ReadsOf [] (f []))
      (args : List Bytes) : ReadsOf args (f args) := by
    cases args with
    | nil => exact h'
    | cons k rest => exact h k rest
  cases c with
  | get | strlen => exact pick (fun k _ => ((get_reads k).bind fun _ => .ret _).map _) (.ret _) args
  | existsKey =>
    exact pickAll (fun _ _ => (countKeys_reads existsKey_reads _).map _) (.ret _) args
  | mget => exact pickAll (fun _ _ => (mget_reads _).map _) (.ret _) args
  | hgetall => exact pick (fun k _ => (hgetall_reads k).map _) (.ret _) args
  | hscan => exact hscan_reads args
  | hlen | llen | scard | zcard => exact pick (fun k _ => (view_reads k _ _).map _) (.ret _) args
  | hkeys | hvals =>
    exact pick (fun k _ => ((hgetall_reads k).bind fun _ => .ret _).map _) (.ret _) args
  | smembers => exact pick (fun k _ => (getSet_reads k).map _) (.ret _) args
  | sscan => exact sscan_reads args
  | sinter | sunion | sdiff =>
    exact pickAll (fun _ _ => ((getSets_reads _).bind fun _ => .ret _).map _) (.ret _) args
  | srandmember =>
    exact pick (fun k _ => ((getSet_reads k).bind fun _ => .ret _).map _) (.ret _) args
  | keyType => exact pick (fun k _ => (keyType_reads k).map _) (.ret _) args
  | keys | scan | randomkey | dbsize => cases hwide
  | ttl | pttl => exact pick (fun k _ => (ttl_reads k).map _) (.ret _) args
  | ping | echo => cases args <;> exact .ret _
  | commandInfo => exact commandInfo_reads args _
  | memory => exact memory_reads args
  | object => exact object_reads args
  | debug => exact debug_reads args _
  | hget | hexists | sismember | zscore | zrank | hmget =>
    exact pickTwo (fun k _ _ => (view_reads k _ _).map _) (fun _ => .ret _) (.ret _) args
  | lindex => exact lindex_reads args
  | getrange => exact getrange_reads args
  | lrange => exact lrange_reads args
  | zrange => exact zrange_reads args
  | _ => first | exact .ret _ | exact absurd hw (by decide)

theorem arm_reads {c : CommandName} (hw : c.isWrite = false) (args : List Bytes) :
    Reads (arm env c args : EngineProgram F _) := by
  cases hwide : isWide c with
  | false => exact (arm_readsOf hw hwide args).reads
  | true =>
    cases c with
    | keys =>
      cases args with
      | nil => exact .ret _
      | cons pattern rest => exact keys_reads.map _
    | scan => exact scan_reads args
    | randomkey => exact (keys_reads.bind fun _ => .ret _).map _
    | dbsize => exact keyCounts_reads.map _
    | _ => cases hwide

end Dispatch

theorem dispatch_reads {frame : Frame} (h : extractWriteCommandName frame = none) :
    Reads (dispatch env frame : EngineProgram F Frame) := by
  unfold dispatch
  split
  · exact .ret _
  · exact .ret _
  · next raw rest hargs =>
    split
    · exact .ret _
    · next name hname =>
      split
      · exact .ret _
      · next c hc =>
        refine Dispatch.arm_reads ?_ rest
        have hcommand : commandName raw = some c := by rw [commandName, hname, Option.bind_some, hc]
        rw [frameToArgs_ok hargs] at h
        simpa [extractWriteCommandName, Frame.command, hcommand] using h

end RocketMem
