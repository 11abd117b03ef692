import RocketMem.Engine.Commands.Pricing
import RocketMem.Server.DispatchProof
import RocketMem.Server.ReadProof

namespace RocketMem

open List Variant

variable {F : Type} [F64 F] {env : Env} {R : Type} {good : Value F → Prop}

def KeyOp.IsFair (good : Value F → Prop) : KeyOp F → Prop
  | set value => good value
  | withMutDelta f => Priced f
  | _ => True

def EngineOp.IsFair (good : Value F → Prop) : EngineOp F → Prop
  | key _ op => op.IsFair good
  | _ => True

def KeyOp.Yields (good : Value F → Prop) : (op : KeyOp F) → op.Ret → Prop
  | get | withRef | withMutDelta _ => fun r => ∀ v, r = some v → good v
  | _ => fun _ => True

def EngineOp.Yields (good : Value F → Prop) : (o : EngineOp F) → o.Ret → Prop
  | key _ op => op.Yields good
  | _ => fun _ => True

abbrev Conducts (good : Value F → Prop) (env : Env) {α : Type} (keys : List Bytes)
    (p : EngineProgram F α) : Prop :=
  Program.Under (EngineOp.Yields good) (fun o => o.On (· ∈ keys) ∧ o.IsFair good)
    (Engine.maybeEvict env) p

theorem EngineOp.IsRead.isFair {o : EngineOp F} (h : o.IsRead) : o.IsFair good := by
  cases o with
  | key k op =>
    cases op with
    | get | existsKey | withRef | ttl => trivial
    | _ => exact h.elim
  | _ => trivial

def EngineOp.Evicts (o : EngineOp F) : Prop := o.IsRead ∨ ∃ k, o = .key k .del

theorem evict_evicts (ceiling attempts : Nat) :
    (Engine.evict ceiling attempts : EngineProgram F Unit).Calls EngineOp.Evicts := by
  have hlook {α : Type} {p : EngineProgram F α} (hp : Reads p) : p.Calls EngineOp.Evicts :=
    Program.Calls.mono (fun _ => .inl) hp
  induction attempts with
  | zero => exact .ret _
  | succ attempts ih =>
    have hused : Reads (Engine.memoryUsed : EngineProgram F UInt64) :=
      (overShards_calls fun i => shardOp_reads (o := .shardBytesUsed i) trivial).bind fun _ => .ret _
    have hsample : Reads (Engine.sampleForEviction 5 : EngineProgram F _) :=
      (overShards_calls fun i => shardOp_reads (o := .sampleRecency i 5) trivial).bind fun _ =>
        .ret _
    refine (hlook hused).bind fun used => ?_
    split
    · exact .ret _
    · refine (hlook hsample).bind fun sample => ?_
      split
      · exact .ret _
      · next victim _ =>
        refine (hlook (withRef_reads victim).reads).bind fun _ => ?_
        exact Program.Calls.bind (.perform (o := EngineOp.key victim .del) (.inr ⟨victim, rfl⟩))
          fun _ => ih

theorem maybeEvict_evicts :
    (Engine.maybeEvict env : EngineProgram F Unit).Calls EngineOp.Evicts := by
  unfold Engine.maybeEvict
  split
  · exact .ret _
  · exact evict_evicts _ _

theorem EngineOp.Evicts.isFair {o : EngineOp F} (h : o.Evicts) : o.IsFair good := by
  rcases h with h | ⟨k, rfl⟩
  · exact h.isFair
  · trivial

theorem EngineOp.yields_any (o : EngineOp F) (r : o.Ret) : o.Yields (fun _ => True) r := by
  cases o with
  | key k op => cases op <;> simp [EngineOp.Yields, KeyOp.Yields]
  | _ => trivial

theorem Conducts.fair {α : Type} {keys : List Bytes} {p : EngineProgram F α}
    (hp : Conducts (fun _ => True) env keys p) : p.Calls (EngineOp.IsFair fun _ => True) :=
  (hp.beside EngineOp.yields_any fun _ ho => ho.2).calls (fun _ ho => ho)
    (maybeEvict_evicts.mono fun _ ho => ho.isFair)

section

variable {keys : List Bytes} {key : Bytes}

theorem ReadsOf.conducts {α : Type} {keys' : List Bytes} {p : EngineProgram F α}
    (h : ReadsOf keys' p) (hkeys : keys' ⊆ keys) : Conducts good env keys p :=
  (Program.Calls.mono (fun _ ho => ⟨ho.2, ho.1.isFair⟩) (h.mono hkeys)).under _ _

theorem ReadsOf.conducts_one {α : Type} {p : EngineProgram F α} (h : ReadsOf [key] p)
    (hk : key ∈ keys) : Conducts good env keys p :=
  h.conducts fun _ hmem => mem_singleton.mp hmem ▸ hk

theorem perform_conducts (hk : key ∈ keys) (op : KeyOp F) (hop : op.IsFair good) :
    Conducts good env keys (Engine.perform key op) :=
  Program.Calls.under (.perform (o := EngineOp.key key op) ⟨hk, hop⟩) _ _

theorem engineDel_conducts (hk : key ∈ keys) : Conducts good env keys (Engine.del key) :=
  perform_conducts hk .del trivial

theorem maybeEvict_conducts : Conducts good env keys (Engine.maybeEvict env) := by
  have hevict : Conducts good env keys ((Engine.maybeEvict env : EngineProgram F Unit) >>= .ret) :=
    .aside (.ret ())
  rwa [Program.bind_ret] at hevict

theorem engineSet_conducts (hk : key ∈ keys) {value : Value F} (hv : good value) :
    Conducts good env keys (Engine.set env key value) :=
  (perform_conducts hk (.set value) hv).bind fun _ => maybeEvict_conducts

theorem withMutDelta_conducts (hk : key ∈ keys) (absent : R) {f : Value F → R × Value F × Int}
    (hf : Priced fun v => (f v).2) : Conducts good env keys (Engine.withMutDelta env key absent f) :=
  (perform_conducts hk (.withMutDelta fun v => (f v).2) hf).bind fun _ => .aside (.ret _)

theorem upsert_conducts (hk : key ∈ keys) {f : Value F → EngineResult R × Value F × Int}
    (hf : Priced fun v => (f v).2) (reply : R) {fresh : Option (Value F)}
    (hfresh : ∀ v, fresh = some v → good v) :
    Conducts good env keys (upsert env key f reply fresh) := by
  have hedit : Conducts good env keys (Engine.withMutDelta env key (.ok none) fun v =>
      ((f v).1.map some, (f v).2)) := withMutDelta_conducts hk _ hf
  refine hedit.bind fun existed => ?_
  split
  · exact .ret _
  · exact .ret _
  · exact .ret _
  · exact (engineSet_conducts hk (hfresh _ rfl)).bind fun _ => .ret _

theorem upsert_edit_conducts {T : Type} {w : Variant F T} {size : T → Nat} (hw : w.Weighs size)
    (hgood : ∀ v : Value F, v.isEmptyCollection = false → good v) (hk : key ∈ keys)
    {f : T → EngineResult R × T × Int} (hf : Variant.Prices size f) (reply : R)
    {fresh : Option (Value F)} (hfresh : ∀ v, fresh = some v → v.isEmptyCollection = false) :
    Conducts good env keys (upsert env key (w.edit f) reply fresh) :=
  upsert_conducts hk (hf.edit hw) reply fun v hv => hgood v (hfresh v hv)

theorem expireAt_conducts (hk : key ∈ keys) (deadline : Nat) :
    Conducts good env keys (Engine.expireAt key deadline) :=
  perform_conducts hk (.expireAt deadline) trivial

theorem instantAfter_conducts (ms : Nat) : Conducts good env keys (Engine.instantAfter env ms) := by
  unfold Engine.instantAfter
  split
  · exact .ret _
  · exact .halt

end

section

variable {keys : List Bytes} {key : Bytes}
  (hgood : ∀ v : Value F, v.isEmptyCollection = false → good v)

include hgood

theorem setString_conducts (hk : key ∈ keys) (val : Bytes) :
    Conducts good env keys (Engine.set env key (.string val : Value F)) :=
  engineSet_conducts hk (hgood _ rfl)

theorem setNx_conducts (hk : key ∈ keys) (val : Bytes) :
    Conducts good env keys (setNx env key val) := by
  refine ((existsKey_reads key).conducts_one hk).bind fun found => ?_
  split
  · exact .ret _
  · exact (setString_conducts hgood hk val).bind fun _ => .ret _

theorem setXx_conducts (hk : key ∈ keys) (val : Bytes) :
    Conducts good env keys (setXx env key val) := by
  refine ((existsKey_reads key).conducts_one hk).bind fun found => ?_
  split
  · exact .ret _
  · exact (setString_conducts hgood hk val).bind fun _ => .ret _

theorem append_conducts (hk : key ∈ keys) (suffix : Bytes) :
    Conducts good env keys (append env key suffix) :=
  upsert_edit_conducts string_weighs hgood hk (append_priced suffix) _ fun v hv => by
    cases hv
    rfl

theorem incrBy_conducts (hk : key ∈ keys) (delta : Int) :
    Conducts good env keys (incrBy env key delta) :=
  upsert_edit_conducts string_weighs hgood hk (incrBy_priced delta) _ fun v hv => by
    cases hv
    rfl

theorem getset_conducts (hk : key ∈ keys) (val : Bytes) :
    Conducts good env keys (getset env key val) := by
  have hold : Conducts good env keys (getString key) :=
    ((get_reads key).conducts_one hk).bind fun _ => .ret _
  refine hold.bind fun old => ?_
  split
  · exact .ret _
  · exact (setString_conducts hgood hk val).bind fun _ => .ret _

theorem setrange_conducts (hk : key ∈ keys) (offset : Nat) (value : Bytes) :
    Conducts good env keys (setrange env key offset value) := by
  unfold setrange
  split
  · exact ((get_reads key).conducts_one hk).bind fun _ => .ret _
  · have hsplice : Conducts good env keys (Engine.perform key
        (.withMutDelta (spliceValue offset value))) :=
      perform_conducts hk _ (spliceValue_priced offset value)
    refine hsplice.bind fun old => ?_
    split
    · split
      · exact .halt
      · exact .aside (.ret _)
    · exact .aside (.ret _)
    · refine .aside ?_
      split
      · exact .halt
      · exact (setString_conducts hgood hk _).bind fun _ => .ret _

theorem mset_conducts {pairs : List (Bytes × Bytes)} (h : ∀ p ∈ pairs, p.1 ∈ keys) :
    Conducts good env keys (mset env pairs) := by
  induction pairs with
  | nil => exact .ret _
  | cons p pairs ih =>
    exact (setString_conducts hgood (h p mem_cons_self) _).bind fun _ =>
      ih fun q hq => h q (mem_cons_of_mem p hq)

omit hgood in
theorem anyExists_conducts {ks : List Bytes} (h : ks ⊆ keys) :
    Conducts good env keys (anyExists ks) := by
  induction ks with
  | nil => exact .ret _
  | cons k ks ih =>
    refine ((existsKey_reads k).conducts_one (h mem_cons_self)).bind fun found => ?_
    split
    · exact .ret _
    · exact ih fun k' hk' => h (mem_cons_of_mem k hk')

theorem msetnx_conducts {pairs : List (Bytes × Bytes)} (h : ∀ p ∈ pairs, p.1 ∈ keys) :
    Conducts good env keys (msetnx env pairs) := by
  have hkeys : pairs.map Prod.fst ⊆ keys := by
    intro k hk
    obtain ⟨p, hp, rfl⟩ := mem_map.mp hk
    exact h p hp
  refine (anyExists_conducts hkeys).bind fun found => ?_
  split
  · exact .ret _
  · exact (mset_conducts hgood h).bind fun _ => .ret _

theorem hset_conducts (hk : key ∈ keys) (field val : Bytes) :
    Conducts good env keys (hset env key field val) :=
  upsert_edit_conducts hash_weighs hgood hk (hset_priced field val) _ fun v hv => by
    cases hv
    exact hash_insert_nonempty _ _ _

theorem hsetnx_conducts (hk : key ∈ keys) (field val : Bytes) :
    Conducts good env keys (hsetnx env key field val) :=
  upsert_edit_conducts hash_weighs hgood hk (hsetnx_priced field val) _ fun v hv => by
    cases hv
    exact hash_insert_nonempty _ _ _

theorem hincrby_conducts (hk : key ∈ keys) (field : Bytes) (delta : Int) :
    Conducts good env keys (hincrby env key field delta) :=
  upsert_edit_conducts hash_weighs hgood hk (hincrby_priced field delta) _ fun v hv => by
    cases hv
    exact hash_insert_nonempty _ _ _

omit hgood in
theorem hdel_conducts (hk : key ∈ keys) (fields : List Bytes) :
    Conducts good env keys (hdel env key fields) :=
  withMutDelta_conducts hk _ ((removeFields_priced fields).edit hash_weighs)

theorem rpush_conducts (hk : key ∈ keys) (values : List Bytes) :
    Conducts good env keys (rpush env key values) := by
  refine upsert_edit_conducts list_weighs hgood hk (rpush_priced values) _ fun v hv => ?_
  rw [Option.ite_none_left_eq_some] at hv
  obtain ⟨hne, hv⟩ := hv
  cases hv
  exact list_nonempty (mt isEmpty_iff.mpr hne)

theorem lpush_conducts (hk : key ∈ keys) (values : List Bytes) :
    Conducts good env keys (lpush env key values) := by
  refine upsert_edit_conducts list_weighs hgood hk (lpush_priced values) _ fun v hv => ?_
  rw [Option.ite_none_left_eq_some] at hv
  obtain ⟨hne, hv⟩ := hv
  cases hv
  exact list_nonempty (mt reverse_eq_nil_iff.mp (mt isEmpty_iff.mpr hne))

omit hgood in
theorem pop_conducts (hk : key ∈ keys) (stop : ListEnd) :
    Conducts good env keys (Engine.withMutDelta env key (.ok none) (popFrom stop)) :=
  withMutDelta_conducts hk _ (popFrom_priced stop)

omit hgood in
theorem lset_conducts (hk : key ∈ keys) (index : Int) (val : Bytes) :
    Conducts good env keys (lset env key index val) :=
  withMutDelta_conducts hk _ ((lset_priced index val).edit list_weighs)

omit hgood in
theorem ltrim_conducts (hk : key ∈ keys) (start stop : Int) :
    Conducts good env keys (ltrim env key start stop) :=
  withMutDelta_conducts hk _ ((ltrim_priced start stop).edit list_weighs)

omit hgood in
theorem lrem_conducts (hk : key ∈ keys) (count : Int) (val : Bytes) :
    Conducts good env keys (lrem env key count val) :=
  withMutDelta_conducts hk _ ((lrem_priced count val).edit list_weighs)

omit hgood in
theorem linsert_conducts (hk : key ∈ keys) (before : Bool) (pivot val : Bytes) :
    Conducts good env keys (linsert env key before pivot val) :=
  withMutDelta_conducts hk _ ((linsert_priced before pivot val).edit list_weighs)

theorem pushOne_conducts (hk : key ∈ keys) (stop : ListEnd) (val : Bytes) :
    Conducts good env keys (pushOne env key stop val) :=
  upsert_edit_conducts list_weighs hgood hk (pushEnd_priced stop val) _ fun v hv => by
    cases hv
    rfl

theorem lmove_conducts {source destination : Bytes} (hs : source ∈ keys) (hd : destination ∈ keys)
    (start stop : ListEnd) : Conducts good env keys (lmove env source destination start stop) := by
  have hpush (popped : EngineResult (Option Bytes)) :
      Conducts good env keys (pushPopped env source destination start stop popped) := by
    unfold pushPopped
    split
    · exact .ret _
    · exact .ret _
    · refine (pushOne_conducts hgood hd _ _).bind fun pushed => ?_
      split
      · exact (pushOne_conducts hgood hs _ _).bind fun _ => .ret _
      · exact .ret _
  have hmove : Conducts good env keys (Engine.withMutDelta env source (.ok none) (popFrom start) >>=
      fun popped => pushPopped env source destination start stop popped) :=
    (pop_conducts hs start).bind hpush
  refine ((withRef_reads destination).conducts_one hd).bind fun found => ?_
  split <;> first | exact .ret _ | exact hmove

omit hgood in
theorem moveEntry_conducts {src dst : Bytes} (hs : src ∈ keys) (hd : dst ∈ keys) {val : Value F}
    (hval : good val) : Conducts good env keys (moveEntry env src dst val) := by
  refine ((ttl_reads src).conducts_one hs).bind fun ttl => ?_
  refine (engineSet_conducts hd hval).bind fun _ => (engineDel_conducts hs).bind fun _ => ?_
  unfold reapplyTtl
  split
  · exact (instantAfter_conducts _).bind fun _ => (expireAt_conducts hd _).bind fun _ => .ret _
  · exact .ret _

omit hgood in
theorem rename_conducts {src dst : Bytes} (hs : src ∈ keys) (hd : dst ∈ keys) :
    Conducts good env keys (rename env src dst) := by
  refine .call ⟨hs, trivial⟩ fun found hfound => ?_
  cases found with
  | none => exact .ret _
  | some val =>
    have hval : good val := hfound val rfl
    split
    · exact .ret _
    · exact (moveEntry_conducts hs hd hval).bind fun _ => .ret _

omit hgood in
theorem renamenx_conducts {src dst : Bytes} (hs : src ∈ keys) (hd : dst ∈ keys) :
    Conducts good env keys (renamenx env src dst) := by
  refine .call ⟨hs, trivial⟩ fun found hfound => ?_
  cases found with
  | none => exact .ret _
  | some val =>
    have hval : good val := hfound val rfl
    refine ((existsKey_reads dst).conducts_one hd).bind fun taken => ?_
    split
    · exact .ret _
    · exact (moveEntry_conducts hs hd hval).bind fun _ => .ret _

theorem sadd_conducts (hk : key ∈ keys) (members : List Bytes) :
    Conducts good env keys (sadd env key members) := by
  refine upsert_edit_conducts set_weighs hgood hk (addMembers_priced members) _ fun v hv => ?_
  rw [Option.ite_none_left_eq_some] at hv
  obtain ⟨hne, hv⟩ := hv
  cases hv
  exact set_nonempty (mt (toFinset_eq_empty_iff members).mp (mt isEmpty_iff.mpr hne))

omit hgood in
theorem srem_conducts (hk : key ∈ keys) (members : List Bytes) :
    Conducts good env keys (srem env key members) :=
  withMutDelta_conducts hk _ ((removeMembers_priced members).edit set_weighs)

omit hgood in
theorem spop_conducts (hk : key ∈ keys) : Conducts good env keys (spop env key) :=
  withMutDelta_conducts hk _ ((spop_priced env).edit set_weighs)

theorem storeResult_conducts {dest : Bytes} (hd : dest ∈ keys)
    {result : EngineProgram F (EngineResult (Finset Bytes))}
    (hresult : Conducts good env keys result) :
    Conducts good env keys (storeResult env dest result) := by
  refine hresult.bind fun r => ?_
  split
  · exact .ret _
  · refine Program.Under.bind ?_ fun _ => .ret _
    unfold storeOrDelete
    split
    · exact (engineDel_conducts hd).bind fun _ => .ret _
    · next hne =>
      exact (engineSet_conducts hd (hgood _ (set_nonempty hne))).bind fun _ => .ret _

theorem zadd_conducts (hk : key ∈ keys) (score : F) (member : Bytes) :
    Conducts good env keys (zadd env key score member) :=
  upsert_edit_conducts sortedSet_weighs hgood hk (zadd_priced score member) _
    fun v hv => by
      cases hv
      exact sortedSet_insert_nonempty _ _ _

theorem zincrby_conducts (hk : key ∈ keys) (delta : F) (member : Bytes) :
    Conducts good env keys (zincrby env key delta member) :=
  upsert_edit_conducts sortedSet_weighs hgood hk (zincrby_priced delta member) _
    fun v hv => by
      cases hv
      exact sortedSet_insert_nonempty _ _ _

omit hgood in
theorem zrem_conducts (hk : key ∈ keys) (members : List Bytes) :
    Conducts good env keys (zrem env key members) :=
  withMutDelta_conducts hk _ ((removeScored_priced members).edit sortedSet_weighs)

omit hgood in
theorem getSets_conducts {ks : List Bytes} (h : ks ⊆ keys) (f : List (Finset Bytes) → Finset Bytes) :
    Conducts good env keys (do return (← getSets ks).map f) :=
  ((getSets_reads ks).conducts h).bind fun _ => .ret _

end

namespace Dispatch

section

variable {keys : List Bytes} {key : Bytes}

theorem parsed_conducts (raw : Bytes) {f : Int → EngineProgram F Frame}
    (h : ∀ n, Conducts good env keys (f n)) :
    Conducts good env keys
      (match parseI64 raw with | none => return notAnInteger | some n => f n) := by
  cases parseI64 raw with
  | none => exact .ret _
  | some n => exact h n

theorem scored_conducts {α : Type} {parsed : Except Frame α} {f : α → EngineProgram F Frame}
    (h : ∀ a, Conducts good env keys (f a)) :
    Conducts good env keys (match parsed with | .error e => return e | .ok a => f a) := by
  cases parsed with
  | error e => exact .ret e
  | ok a => exact h a

theorem expireIn_conducts (args : List Bytes) (name : String) (unit : Nat) :
    Conducts good env (args.take 1) (expireIn env name unit args) := by
  unfold expireIn
  split
  · split
    · exact .ret _
    · exact (instantAfter_conducts _).bind fun _ => (expireAt_conducts mem_cons_self _).map _
  · exact .ret _

theorem expireAtUnix_conducts (args : List Bytes) (name : String) (toMs : Int → Int) :
    Conducts good env (args.take 1) (expireAtUnix env name toMs args) := by
  unfold expireAtUnix
  split
  · split
    · exact .ret _
    · exact (expireAt_conducts mem_cons_self _).map _
  · exact .ret _

theorem del_conducts (args : List Bytes) : Conducts good env args (del args) := by
  have hcount (ks : List Bytes) (hks : ks ⊆ args) :
      Conducts good env args (countKeys Engine.del ks) := by
    induction ks with
    | nil => exact .ret _
    | cons k ks ih =>
      exact (engineDel_conducts (hks mem_cons_self)).bind fun _ =>
        (ih fun k' hk' => hks (mem_cons_of_mem k hk')).bind fun _ => .ret _
  unfold del
  split
  · exact .ret _
  · exact (hcount _ (List.Subset.refl _)).map _

theorem firstAvailablePop_conducts (stop : ListEnd) {from_ : List Bytes} (h : from_ ⊆ keys) :
    Conducts good env keys (firstAvailablePop env stop from_) := by
  induction from_ with
  | nil => exact .ret _
  | cons key rest ih =>
    have hpop : Conducts good env keys (popAt env stop key) := by
      cases stop <;> exact pop_conducts (h mem_cons_self) _
    refine hpop.bind fun r => ?_
    split
    · exact .ret _
    · exact .ret _
    · exact ih fun k hk => h (mem_cons_of_mem key hk)

theorem blockingPop_conducts (args : List Bytes) (name : String) (stop : ListEnd) :
    Conducts good env (args.take (args.length - 1))
      (blockingPop env name stop args : EngineProgram F Frame) := by
  rw [← dropLast_eq_take]
  unfold blockingPop
  split
  · split
    · exact .ret _
    · exact (firstAvailablePop_conducts _ (List.Subset.refl _)).map _
  · exact .ret _

theorem ltrim_conducts (args : List Bytes) : Conducts good env (args.take 1) (ltrim env args) := by
  unfold ltrim
  split
  · split
    · exact (RocketMem.ltrim_conducts mem_cons_self _ _).map _
    · exact .ret _
  · exact .ret _

theorem linsert_conducts (args : List Bytes) :
    Conducts good env (args.take 1) (linsert env args) := by
  unfold linsert
  split
  · split
    · exact (RocketMem.linsert_conducts mem_cons_self _ _ _).map _
    · split
      · exact (RocketMem.linsert_conducts mem_cons_self _ _ _).map _
      · exact .ret _
  · exact .ret _

variable (hgood : ∀ v : Value F, v.isEmptyCollection = false → good v) (args : List Bytes)

include hgood

theorem setApply_conducts (hk : key ∈ keys) (val : Bytes) (words : List Bytes) :
    Conducts good env keys (setApply env key val words) := by
  unfold setApply
  split
  · exact setNx_conducts hgood hk val
  · split
    · exact setXx_conducts hgood hk val
    · exact (setString_conducts hgood hk val).bind fun _ => .ret _

theorem set_conducts : Conducts good env (args.take 1) (set env args) := by
  unfold set
  split
  · split
    · exact .ret _
    · refine (setApply_conducts hgood mem_cons_self _ _).bind fun applied => ?_
      split
      · exact .ret _
      · split
        · exact .ret _
        · exact (instantAfter_conducts _).bind fun _ =>
            (expireAt_conducts mem_cons_self _).bind fun _ => .ret _
  · exact .ret _

theorem setrange_conducts : Conducts good env (args.take 1) (setrange env args) := by
  unfold setrange
  split
  · split
    · exact .ret _
    · split
      · exact .ret _
      · exact (RocketMem.setrange_conducts hgood mem_cons_self _ _).map _
  · exact .ret _

theorem mset_conducts : Conducts good env (stepByTwo args) (mset env args) := by
  unfold mset
  split
  · split
    · exact .ret _
    · exact (RocketMem.mset_conducts hgood (pairs_fst_mem _)).bind fun _ => .ret _
  · exact .ret _

theorem msetnx_conducts : Conducts good env (stepByTwo args) (msetnx env args) := by
  unfold msetnx
  split
  · split
    · exact .ret _
    · exact (RocketMem.msetnx_conducts hgood (pairs_fst_mem _)).map _
  · exact .ret _

theorem hsetPairs_conducts (hk : key ∈ keys) (pairs : List (Bytes × Bytes)) (added : Int) :
    Conducts good env keys (hsetPairs env key pairs added) := by
  induction pairs generalizing added with
  | nil => exact .ret _
  | cons p pairs ih =>
    refine (RocketMem.hset_conducts hgood hk _ _).bind fun r => ?_
    split
    · exact .ret _
    · exact ih _

theorem hset_conducts : Conducts good env (args.take 1) (hset env args) := by
  unfold hset
  split
  · split
    · exact .ret _
    · exact hsetPairs_conducts hgood mem_cons_self _ _
  · exact .ret _

theorem move_conducts (src dst : Bytes) (start stop : ListEnd) :
    Conducts good env [src, dst]
      (replyWith bulkOrNull <$> RocketMem.lmove env src dst start stop) :=
  (RocketMem.lmove_conducts hgood mem_cons_self (.tail _ mem_cons_self) _ _).map _

theorem lmove_conducts : Conducts good env (args.take 2) (lmove env args) := by
  unfold lmove
  split
  · split
    · exact .ret _
    · exact move_conducts hgood _ _ _ _
  · exact .ret _

theorem blmove_conducts : Conducts good env (args.take 2) (blmove env args) := by
  unfold blmove
  split
  · split
    · exact .ret _
    · split
      · exact .ret _
      · exact move_conducts hgood _ _ _ _
  · exact .ret _

theorem brpoplpush_conducts : Conducts good env (args.take 2) (brpoplpush env args) := by
  unfold brpoplpush
  split
  · split
    · exact .ret _
    · exact move_conducts hgood _ _ _ _
  · exact .ret _

theorem storeArm_conducts {dest : Bytes} (hd : dest ∈ keys) {ks : List Bytes} (hks : ks ⊆ keys)
    (f : List (Finset Bytes) → Finset Bytes) :
    Conducts good env keys (storeResult env dest (do return (← getSets ks).map f)) :=
  storeResult_conducts hgood hd (getSets_conducts hks f)

end

section

variable {p : List Bytes → EngineProgram F Frame} (args : List Bytes) {r : Frame}
  (hnil : p [] = .ret r)

include hnil

/-- Arms by the number of arguments that they ask for, of which the first is their key. -/
theorem conducts_one (h : ∀ key rest, Conducts good env [key] (p (key :: rest))) :
    Conducts good env (args.take 1) (p args) := by
  cases args with
  | nil => exact hnil ▸ .ret r
  | cons key rest => exact h key rest

theorem conducts_two (hone : ∀ key, p [key] = .ret r)
    (h : ∀ key a rest, Conducts good env [key] (p (key :: a :: rest))) :
    Conducts good env (args.take 1) (p args) := by
  refine conducts_one args hnil fun key rest => ?_
  cases rest with
  | nil => exact hone key ▸ .ret r
  | cons a rest => exact h key a rest

theorem conducts_three (hone : ∀ key, p [key] = .ret r) (htwo : ∀ key a, p [key, a] = .ret r)
    (h : ∀ key a b rest, Conducts good env [key] (p (key :: a :: b :: rest))) :
    Conducts good env (args.take 1) (p args) := by
  refine conducts_two args hnil hone fun key a rest => ?_
  cases rest with
  | nil => exact htwo key a ▸ .ret r
  | cons b rest => exact h key a b rest

end

/-- Every write command works on its declared keys only, eviction aside; its closures report what
they do, and of what is good it makes good values. -/
theorem arm_conducts (hgood : ∀ v : Value F, v.isEmptyCollection = false → good v)
    {c : CommandName} (hw : c.isWrite = true) (args : List Bytes) :
    Conducts good env ((keySpec c).select args) (arm env c args : EngineProgram F Frame) := by
  cases c with
  | set => exact set_conducts hgood args
  | setrange => exact setrange_conducts hgood args
  | mset => exact mset_conducts hgood args
  | msetnx => exact msetnx_conducts hgood args
  | del => exact del_conducts args
  | expire | pexpire => exact expireIn_conducts args _ _
  | expireat | pexpireat => exact expireAtUnix_conducts args _ _
  | hset => exact hset_conducts hgood args
  | ltrim => exact ltrim_conducts args
  | linsert => exact linsert_conducts args
  | lmove => exact lmove_conducts hgood args
  | blmove => exact blmove_conducts hgood args
  | brpoplpush => exact brpoplpush_conducts hgood args
  | blpop | brpop => exact blockingPop_conducts args _ _
  | append =>
    exact conducts_two args rfl (fun _ => rfl) fun _ _ _ =>
      (append_conducts hgood mem_cons_self _).map _
  | incr | decr =>
    exact conducts_one args rfl fun _ _ => (incrBy_conducts hgood mem_cons_self _).map _
  | incrby =>
    exact conducts_two args rfl (fun _ => rfl) fun _ _ _ =>
      parsed_conducts _ fun _ => (incrBy_conducts hgood mem_cons_self _).map _
  | getset =>
    exact conducts_two args rfl (fun _ => rfl) fun _ _ _ =>
      (getset_conducts hgood mem_cons_self _).map _
  | hsetnx =>
    exact conducts_three args rfl (fun _ => rfl) (fun _ _ => rfl) fun _ _ _ _ =>
      (hsetnx_conducts hgood mem_cons_self _ _).map _
  | hincrby =>
    exact conducts_three args rfl (fun _ => rfl) (fun _ _ => rfl) fun _ _ _ _ =>
      parsed_conducts _ fun _ => (hincrby_conducts hgood mem_cons_self _ _).map _
  | hdel =>
    exact conducts_two args rfl (fun _ => rfl) fun _ _ _ =>
      (hdel_conducts mem_cons_self _).map _
  | rpush =>
    exact conducts_two args rfl (fun _ => rfl) fun _ _ _ =>
      (rpush_conducts hgood mem_cons_self _).map _
  | lpush =>
    exact conducts_two args rfl (fun _ => rfl) fun _ _ _ =>
      (lpush_conducts hgood mem_cons_self _).map _
  | rpop | lpop =>
    exact conducts_one args rfl fun _ _ => (pop_conducts mem_cons_self _).map _
  | lset =>
    exact conducts_three args rfl (fun _ => rfl) (fun _ _ => rfl) fun _ _ _ _ =>
      parsed_conducts _ fun _ => (lset_conducts mem_cons_self _ _).map _
  | lrem =>
    exact conducts_three args rfl (fun _ => rfl) (fun _ _ => rfl) fun _ _ _ _ =>
      parsed_conducts _ fun _ => (lrem_conducts mem_cons_self _ _).map _
  | sadd =>
    exact conducts_two args rfl (fun _ => rfl) fun _ _ _ =>
      (sadd_conducts hgood mem_cons_self _).map _
  | srem =>
    exact conducts_two args rfl (fun _ => rfl) fun _ _ _ =>
      (srem_conducts mem_cons_self _).map _
  | spop =>
    exact conducts_one args rfl fun _ _ => (spop_conducts mem_cons_self).map _
  | zadd =>
    exact conducts_three args rfl (fun _ => rfl) (fun _ _ => rfl) fun _ _ _ _ =>
      scored_conducts fun _ => (zadd_conducts hgood mem_cons_self _ _).map _
  | zincrby =>
    exact conducts_three args rfl (fun _ => rfl) (fun _ _ => rfl) fun _ _ _ _ =>
      scored_conducts fun _ => (zincrby_conducts hgood mem_cons_self _ _).map _
  | zrem =>
    exact conducts_two args rfl (fun _ => rfl) fun _ _ _ =>
      (zrem_conducts mem_cons_self _).map _
  | persist =>
    exact conducts_one args rfl fun _ _ => (perform_conducts mem_cons_self .persist trivial).map _
  | rpoplpush =>
    rcases args with _ | ⟨src, _ | ⟨dst, rest⟩⟩ <;> first
      | exact .ret _
      | exact move_conducts hgood _ _ _ _
  | rename =>
    rcases args with _ | ⟨src, _ | ⟨dst, rest⟩⟩ <;> first
      | exact .ret _
      | exact (rename_conducts mem_cons_self (.tail _ mem_cons_self)).map _
  | renamenx =>
    rcases args with _ | ⟨src, _ | ⟨dst, rest⟩⟩ <;> first
      | exact .ret _
      | exact (renamenx_conducts mem_cons_self (.tail _ mem_cons_self)).map _
  | sinterstore | sunionstore | sdiffstore =>
    rcases args with _ | ⟨dest, _ | ⟨key, rest⟩⟩ <;> first
      | exact .ret _
      | exact (storeArm_conducts hgood mem_cons_self (subset_cons_self _ _) _).map _
  | _ => exact absurd hw (by decide)

end Dispatch

end RocketMem
