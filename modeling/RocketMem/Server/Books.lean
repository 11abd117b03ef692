import RocketMem.Server.Conduct
import RocketMem.Server.Reachable

namespace RocketMem

variable {F : Type} [F64 F]

section

/-- `with_mut`: like `with_mut_delta`, with the difference of the sizes for a delta. -/
def Engine.withMut (env : Env) {R : Type} (key : Bytes) (absent : R) (f : Value F → R × Value F) :
    EngineProgram F R :=
  Engine.withMutDelta env key absent fun v =>
    ((f v).1, (f v).2, ((f v).2.approxSize : Int) - v.approxSize)

/-- The calls of the engine's interface. A closure passed to `with_mut_delta` has to report what it
does; the commands' own closures do. -/
inductive EngineCall (env : Env) : {α : Type} → EngineProgram F α → Prop
  | get (key : Bytes) : EngineCall env (Engine.get key)
  | set (key : Bytes) (value : Value F) : EngineCall env (Engine.set env key value)
  | del (key : Bytes) : EngineCall env (Engine.del key)
  | existsKey (key : Bytes) : EngineCall env (Engine.existsKey key)
  | withRef (key : Bytes) : EngineCall env (Engine.withRef key)
  | withMut {R : Type} (key : Bytes) (absent : R) (f : Value F → R × Value F) :
      EngineCall env (Engine.withMut env key absent f)
  | withMutDelta {R : Type} (key : Bytes) (absent : R) (f : Value F → R × Value F × Int)
      (hf : Priced fun v => (f v).2) : EngineCall env (Engine.withMutDelta env key absent f)
  | expireAt (key : Bytes) (deadline : Nat) : EngineCall env (Engine.expireAt key deadline)
  | persist (key : Bytes) : EngineCall env (Engine.persist key)
  | ttl (key : Bytes) : EngineCall env (Engine.ttl key)
  | keys : EngineCall env Engine.keys
  | keyCounts : EngineCall env Engine.keyCounts
  | scan (cursor : Nat) : EngineCall env (Engine.scan cursor)
  | memoryUsed : EngineCall env Engine.memoryUsed
  | setNx (key val : Bytes) : EngineCall env (setNx env key val)
  | setXx (key val : Bytes) : EngineCall env (setXx env key val)
  | getString (key : Bytes) : EngineCall env (getString key)
  | append (key suffix : Bytes) : EngineCall env (append env key suffix)
  | strlen (key : Bytes) : EngineCall env (strlen key)
  | incrBy (key : Bytes) (delta : Int) : EngineCall env (incrBy env key delta)
  | getset (key val : Bytes) : EngineCall env (getset env key val)
  | getrange (key : Bytes) (start stop : Int) : EngineCall env (getrange key start stop)
  | setrange (key : Bytes) (offset : Nat) (value : Bytes) :
      EngineCall env (setrange env key offset value)
  | mset (pairs : List (Bytes × Bytes)) : EngineCall env (mset env pairs)
  | mget (keys : List Bytes) : EngineCall env (mget keys)
  | msetnx (pairs : List (Bytes × Bytes)) : EngineCall env (msetnx env pairs)
  | rename (src dst : Bytes) : EngineCall env (rename env src dst)
  | renamenx (src dst : Bytes) : EngineCall env (renamenx env src dst)
  | keyType (key : Bytes) : EngineCall env (keyType key)
  | randomkey : EngineCall env (randomkey env)
  | hset (key field val : Bytes) : EngineCall env (hset env key field val)
  | hget (key field : Bytes) : EngineCall env (hget key field)
  | hdel (key : Bytes) (fields : List Bytes) : EngineCall env (hdel env key fields)
  | hgetall (key : Bytes) : EngineCall env (hgetall key)
  | hexists (key field : Bytes) : EngineCall env (hexists key field)
  | hlen (key : Bytes) : EngineCall env (hlen key)
  | hincrby (key field : Bytes) (delta : Int) : EngineCall env (hincrby env key field delta)
  | hkeys (key : Bytes) : EngineCall env (hkeys env key)
  | hvals (key : Bytes) : EngineCall env (hvals env key)
  | hmget (key : Bytes) (fields : List Bytes) : EngineCall env (hmget key fields)
  | hsetnx (key field val : Bytes) : EngineCall env (hsetnx env key field val)
  | rpush (key : Bytes) (values : List Bytes) : EngineCall env (rpush env key values)
  | lpush (key : Bytes) (values : List Bytes) : EngineCall env (lpush env key values)
  | rpop (key : Bytes) : EngineCall env (rpop env key)
  | lpop (key : Bytes) : EngineCall env (lpop env key)
  | llen (key : Bytes) : EngineCall env (llen key)
  | lrange (key : Bytes) (start stop : Int) : EngineCall env (lrange key start stop)
  | lindex (key : Bytes) (index : Int) : EngineCall env (lindex key index)
  | lset (key : Bytes) (index : Int) (val : Bytes) : EngineCall env (lset env key index val)
  | ltrim (key : Bytes) (start stop : Int) : EngineCall env (ltrim env key start stop)
  | lrem (key : Bytes) (count : Int) (val : Bytes) : EngineCall env (lrem env key count val)
  | lmove (source destination : Bytes) (start stop : ListEnd) :
      EngineCall env (lmove env source destination start stop)
  | linsert (key : Bytes) (before : Bool) (pivot val : Bytes) :
      EngineCall env (linsert env key before pivot val)
  | sadd (key : Bytes) (members : List Bytes) : EngineCall env (sadd env key members)
  | srem (key : Bytes) (members : List Bytes) : EngineCall env (srem env key members)
  | smembers (key : Bytes) : EngineCall env (smembers key)
  | sismember (key member : Bytes) : EngineCall env (sismember key member)
  | scard (key : Bytes) : EngineCall env (scard key)
  | sinter (keys : List Bytes) : EngineCall env (sinter keys)
  | sunion (keys : List Bytes) : EngineCall env (sunion keys)
  | sdiff (keys : List Bytes) : EngineCall env (sdiff keys)
  | sinterstore (dest : Bytes) (keys : List Bytes) : EngineCall env (sinterstore env dest keys)
  | sunionstore (dest : Bytes) (keys : List Bytes) : EngineCall env (sunionstore env dest keys)
  | sdiffstore (dest : Bytes) (keys : List Bytes) : EngineCall env (sdiffstore env dest keys)
  | spop (key : Bytes) : EngineCall env (spop env key)
  | srandmember (key : Bytes) : EngineCall env (srandmember env key)
  | zadd (key : Bytes) (score : F) (member : Bytes) : EngineCall env (zadd env key score member)
  | zscore (key member : Bytes) : EngineCall env (zscore key member)
  | zrem (key : Bytes) (members : List Bytes) : EngineCall env (zrem env key members)
  | zcard (key : Bytes) : EngineCall env (zcard key)
  | zincrby (key : Bytes) (delta : F) (member : Bytes) :
      EngineCall env (zincrby env key delta member)
  | zrange (key : Bytes) (start stop : Int) : EngineCall env (zrange key start stop)
  | zrank (key member : Bytes) : EngineCall env (zrank key member)

variable {env : Env}

theorem EngineCall.fair {α : Type} {p : EngineProgram F α} (h : EngineCall env p) :
    p.Calls (EngineOp.IsFair fun _ => True) := by
  have hany : ∀ v : Value F, v.isEmptyCollection = false → True := fun _ _ => trivial
  have hself (key : Bytes) : key ∈ [key] := List.mem_singleton_self key
  have hpairs (pairs : List (Bytes × Bytes)) : ∀ p ∈ pairs, p.1 ∈ pairs.map Prod.fst :=
    fun p hp => List.mem_map_of_mem hp
  have hreads {α : Type} {p : EngineProgram F α} (hp : Reads p) :
      p.Calls (EngineOp.IsFair fun _ => True) := Program.Calls.mono (fun _ ho => ho.isFair) hp
  cases h with
  | get key => exact hreads (get_reads key).reads
  | set key value => exact Conducts.fair (engineSet_conducts (hself key) trivial)
  | del key => exact .perform (o := EngineOp.key key .del) trivial
  | existsKey key => exact hreads (existsKey_reads key).reads
  | withRef key => exact hreads (withRef_reads key).reads
  | withMut key absent f =>
    refine Conducts.fair (withMutDelta_conducts (hself key) absent fun v => ?_)
    dsimp only
    omega
  | withMutDelta key absent f hf => exact Conducts.fair (withMutDelta_conducts (hself key) absent hf)
  | expireAt key deadline => exact .perform (o := EngineOp.key key (.expireAt deadline)) trivial
  | persist key => exact .perform (o := EngineOp.key key .persist) trivial
  | ttl key => exact hreads (ttl_reads key).reads
  | keys => exact hreads keys_reads
  | keyCounts => exact hreads keyCounts_reads
  | scan cursor => exact hreads (scan_reads cursor)
  | memoryUsed =>
    exact hreads ((overShards_calls fun i => shardOp_reads (o := .shardBytesUsed i) trivial).bind
      fun _ => .ret _)
  | setNx key val => exact Conducts.fair (setNx_conducts hany (hself key) val)
  | setXx key val => exact Conducts.fair (setXx_conducts hany (hself key) val)
  | getString key | strlen key => exact hreads ((get_reads key).reads.bind fun _ => .ret _)
  | append key suffix => exact Conducts.fair (append_conducts hany (hself key) suffix)
  | incrBy key delta => exact Conducts.fair (incrBy_conducts hany (hself key) delta)
  | getset key val => exact Conducts.fair (getset_conducts hany (hself key) val)
  | getrange key start stop => exact hreads (getrange_reads key start stop).reads
  | setrange key offset value => exact Conducts.fair (setrange_conducts hany (hself key) offset value)
  | mset pairs => exact Conducts.fair (mset_conducts hany (hpairs pairs))
  | mget keys => exact hreads (mget_reads keys).reads
  | msetnx pairs => exact Conducts.fair (msetnx_conducts hany (hpairs pairs))
  | rename src dst =>
    exact Conducts.fair (rename_conducts List.mem_cons_self (.tail src (hself dst)))
  | renamenx src dst =>
    exact Conducts.fair (renamenx_conducts List.mem_cons_self (.tail src (hself dst)))
  | keyType key => exact hreads (keyType_reads key).reads
  | randomkey => exact hreads (keys_reads.bind fun _ => .ret _)
  | hset key field val => exact Conducts.fair (hset_conducts hany (hself key) field val)
  | hget key field | hexists key field | hlen key | hmget key fields | llen key
  | lrange key start stop | lindex key index | sismember key member | scard key
  | zscore key member | zcard key | zrange key start stop | zrank key member =>
    exact hreads (view_reads key _ _).reads
  | hdel key fields => exact Conducts.fair (hdel_conducts (hself key) fields)
  | hgetall key => exact hreads (hgetall_reads key).reads
  | hincrby key field delta => exact Conducts.fair (hincrby_conducts hany (hself key) field delta)
  | hkeys key | hvals key => exact hreads ((hgetall_reads key).reads.bind fun _ => .ret _)
  | hsetnx key field val => exact Conducts.fair (hsetnx_conducts hany (hself key) field val)
  | rpush key values => exact Conducts.fair (rpush_conducts hany (hself key) values)
  | lpush key values => exact Conducts.fair (lpush_conducts hany (hself key) values)
  | rpop key => exact Conducts.fair (pop_conducts (hself key) .right)
  | lpop key => exact Conducts.fair (pop_conducts (hself key) .left)
  | lset key index val => exact Conducts.fair (lset_conducts (hself key) index val)
  | ltrim key start stop => exact Conducts.fair (ltrim_conducts (hself key) start stop)
  | lrem key count val => exact Conducts.fair (lrem_conducts (hself key) count val)
  | lmove source destination start stop =>
    exact Conducts.fair (lmove_conducts hany List.mem_cons_self
      (.tail source (hself destination)) start stop)
  | linsert key before pivot val => exact Conducts.fair (linsert_conducts (hself key) before pivot val)
  | sadd key members => exact Conducts.fair (sadd_conducts hany (hself key) members)
  | srem key members => exact Conducts.fair (srem_conducts (hself key) members)
  | smembers key => exact hreads (getSet_reads key).reads
  | sinter keys | sunion keys | sdiff keys =>
    exact hreads ((getSets_reads keys).reads.bind fun _ => .ret _)
  | sinterstore dest keys | sunionstore dest keys | sdiffstore dest keys =>
    exact Conducts.fair (storeResult_conducts hany List.mem_cons_self
      (getSets_conducts (List.subset_cons_self dest keys) _))
  | spop key => exact Conducts.fair (spop_conducts (hself key))
  | srandmember key => exact hreads ((getSet_reads key).reads.bind fun _ => .ret _)
  | zadd key score member => exact Conducts.fair (zadd_conducts hany (hself key) score member)
  | zrem key members => exact Conducts.fair (zrem_conducts (hself key) members)
  | zincrby key delta member => exact Conducts.fair (zincrby_conducts hany (hself key) delta member)

theorem dispatch_fair (frame : Frame) :
    (dispatch env frame : EngineProgram F Frame).Calls (EngineOp.IsFair fun _ => True) := by
  rcases dispatch_cases (F := F) frame with ⟨raw, c, args, rfl, hname⟩ | ⟨reply, hreply⟩
  · rw [dispatch_command hname]
    cases hw : c.isWrite with
    | true => exact Conducts.fair (Dispatch.arm_conducts (fun _ _ => trivial) hw args)
    | false => exact Program.Calls.mono (fun _ ho => ho.isFair) (Dispatch.arm_reads hw args)
  · rw [hreply env]
    exact .ret reply

end

section

variable {σ α : Type}

def Env.at (env : Env) (c : Clock) : Env := { env with clock := c }

def execTimed (exec : Env → (o : EngineOp F) → σ → o.Ret × σ) (env : Env) (clocks : Nat → Clock)
    (o : EngineOp F) (t : σ × Nat) : o.Ret × σ × Nat :=
  let r := exec (env.at (clocks t.2)) o t.1
  (r.1, r.2, t.2 + 1)

def runTimed (exec : Env → (o : EngineOp F) → σ → o.Ret × σ) (env : Env) (clocks : Nat → Clock)
    (p : EngineProgram F α) (s : σ) : Option α × σ :=
  let r := p.run (execTimed exec env clocks) (s, 0)
  (r.1, r.2.1)

theorem runTimed_invariant {R : (o : EngineOp F) → o.Ret → Prop} {P : EngineOp F → Prop}
    {aside : EngineProgram F Unit} {p : EngineProgram F α} (hp : Program.Under R P aside p)
    (haside : aside.Calls P) {exec : Env → (o : EngineOp F) → σ → o.Ret × σ} {I : σ → Prop}
    (hstep : ∀ env o, P o → ∀ s, I s → R o (exec env o s).1 ∧ I (exec env o s).2) (env : Env)
    (clocks : Nat → Clock) {s : σ} (hs : I s) : I (runTimed exec env clocks p s).2 := by
  have hnext : ∀ o, P o → ∀ t : σ × Nat, I t.1 →
      R o (exec (env.at (clocks t.2)) o t.1).1 ∧ I (exec (env.at (clocks t.2)) o t.1).2 :=
    fun o ho t ht => hstep _ o ho t.1 ht
  exact hp.run_invariant (I := fun t : σ × Nat => I t.1) hnext
    (fun t ht => Program.run_invariant haside (I := fun t : σ × Nat => I t.1)
      (fun o ho t ht => (hnext o ho t ht).2) ht) hs

end

/-- A store, and for each shard an account of its bytes that every update of `bytes_used` is posted
to: `none` once more has been subtracted than there was. -/
structure Books (F : Type) [F64 F] where
  store : Store F
  balance : Fin shardCount → Option Nat

namespace Books

def new : Books F := ⟨Store.new, fun _ => some 0⟩

def charge (b : Books F) (st : Store F) (bills : Fin shardCount → List CounterUpdate) : Books F :=
  ⟨st, fun i => (b.balance i).bind fun n => (bills i).foldlM CounterUpdate.post n⟩

def perform (now : Nat) (k : Bytes) (b : Books F) (op : KeyOp F) : op.Ret × Books F :=
  let r := op.exec now k b.store
  (r.1, b.charge r.2 fun i => if i = shardIndex k then (b.store.shards i).bill now k op else [])

def exec (env : Env) : (o : EngineOp F) → Books F → o.Ret × Books F
  | .key k op, b => b.perform env.clock.mono k op
  | o, b => ((o.exec env b.store).1, b)

def activeExpireCycle (now : Nat) (b : Books F) (j : Fin shardCount) : Books F :=
  b.charge (b.store.activeExpireCycle now j) fun i =>
    if i = j then [.sub ((b.store.shards i).expiredBytes now)] else []

def loadEntry (now : Nat) (b : Books F) (e : Bytes × Value F × Option Nat) : Books F :=
  let b := (b.perform now e.1 (.set e.2.1)).2
  match e.2.2 with
  | some deadline => (b.perform now e.1 (.expireAt deadline)).2
  | none => b

/-- `load_snapshot_entries`: every shard is cleared, and the entries are put in one by one. -/
def loadSnapshotEntries (now : Nat) (b : Books F) (entries : List (Bytes × Value F × Option Nat)) :
    Books F :=
  entries.foldl (loadEntry now)
    (b.charge { (Store.new : Store F) with tick := b.store.tick } fun _ => [.reset])

def Exact (b : Books F) : Prop :=
  ∀ i, b.balance i = some (b.store.shards i).storedBytes ∧
    (b.store.shards i).bytesUsed = UInt64.ofNat (b.store.shards i).storedBytes

end Books

/-- The books of an engine after any calls and commands, each at any times and under any ceiling,
any sweeps, and any loads. -/
inductive Books.Kept : Books F → Prop
  | new : Kept .new
  | command {b : Books F} (h : Kept b) (env : Env) (clocks : Nat → Clock) (frame : Frame) :
      Kept (runTimed Books.exec env clocks (dispatch env frame) b).2
  | call {b : Books F} (h : Kept b) {env : Env} (clocks : Nat → Clock) {α : Type}
      {p : EngineProgram F α} (hp : EngineCall env p) :
      Kept (runTimed Books.exec env clocks p b).2
  | sweep {b : Books F} (h : Kept b) (now : Nat) (j : Fin shardCount) :
      Kept (b.activeExpireCycle now j)
  | load {b : Books F} (h : Kept b) (now : Nat) (entries : List (Bytes × Value F × Option Nat)) :
      Kept (b.loadSnapshotEntries now entries)
  | tick {b : Books F} (h : Kept b) : Kept ⟨b.store.advanceClock, b.balance⟩

namespace Books

variable {b : Books F}

theorem charge_exact (hb : b.Exact) {st : Store F} {bills : Fin shardCount → List CounterUpdate}
    (h : ∀ i, Settles (bills i) (b.store.shards i) (st.shards i)) : (b.charge st bills).Exact := by
  intro i
  obtain ⟨hbalance, hused⟩ := hb i
  have hpost := (h i).balance
  constructor
  · have hbind : (b.balance i).bind (fun n => (bills i).foldlM CounterUpdate.post n) =
        some (st.shards i).storedBytes := by
      rw [hbalance]
      exact hpost
    exact hbind
  · have hcounter := (h i).counter
    rw [hused, CounterUpdate.foldl_apply_ofNat hpost] at hcounter
    exact hcounter

theorem perform_exact (hb : b.Exact) (op : KeyOp F) (hop : op.IsPriced) (now : Nat) (k : Bytes) :
    (b.perform now k op).2.Exact := by
  refine charge_exact hb fun i => ?_
  by_cases hi : i = shardIndex k
  · subst hi
    rw [if_pos rfl]
    exact KeyOp.exec_settles hop now k b.store
  · rw [if_neg hi, KeyOp.exec_shards op now k b.store hi]
    exact Shard.settles_refl _

theorem exec_exact (env : Env) {o : EngineOp F} (ho : o.IsFair fun _ => True) (hb : b.Exact) :
    (exec env o b).2.Exact := by
  cases o with
  | key k op =>
    have hop : op.IsPriced := by
      cases op with
      | withMutDelta f => exact ho
      | _ => trivial
    exact perform_exact hb op hop _ k
  | _ => exact hb

theorem runTimed_exact {α : Type} {p : EngineProgram F α}
    (hp : p.Calls (EngineOp.IsFair fun _ => True)) (env : Env) (clocks : Nat → Clock)
    (hb : b.Exact) : (runTimed exec env clocks p b).2.Exact :=
  runTimed_invariant (R := fun _ _ => True) (hp.under _ (.ret ())) (.ret ())
    (fun _ _ ho _ hs => ⟨trivial, exec_exact _ ho hs⟩) env clocks hb

theorem activeExpireCycle_exact (hb : b.Exact) (now : Nat) (j : Fin shardCount) :
    (b.activeExpireCycle now j).Exact := by
  refine charge_exact hb fun i => ?_
  by_cases hi : i = j
  · subst hi
    have hswept : (b.store.activeExpireCycle now i).shards i =
        ((b.store.shards i).removeExpired now).2 := Function.update_self _ _ _
    rw [if_pos rfl, hswept]
    exact Shard.removeExpired_settles _ now
  · have hkept : (b.store.activeExpireCycle now j).shards i = b.store.shards i :=
      Function.update_of_ne hi _ _
    rw [if_neg hi, hkept]
    exact Shard.settles_refl _

theorem loadEntry_exact (hb : b.Exact) (now : Nat) (e : Bytes × Value F × Option Nat) :
    (loadEntry now b e).Exact := by
  have hset := perform_exact hb (.set e.2.1) trivial now e.1
  unfold loadEntry
  dsimp only
  split
  · next deadline _ => exact perform_exact hset (.expireAt deadline) trivial now e.1
  · exact hset

theorem loadSnapshotEntries_exact (hb : b.Exact) (now : Nat)
    (entries : List (Bytes × Value F × Option Nat)) : (b.loadSnapshotEntries now entries).Exact := by
  have hcleared : (b.charge { (Store.new : Store F) with tick := b.store.tick }
      fun _ => [.reset]).Exact := charge_exact hb fun i => Shard.clear_settles (b.store.shards i)
  unfold loadSnapshotEntries
  generalize b.charge { (Store.new : Store F) with tick := b.store.tick } (fun _ => [.reset]) = b'
    at hcleared
  induction entries generalizing b' with
  | nil => exact hcleared
  | cons e entries ih => exact ih _ (loadEntry_exact hcleared now e)

end Books

theorem Books.Kept.exact {b : Books F} (h : b.Kept) : b.Exact := by
  induction h with
  | new => exact fun _ => ⟨rfl, rfl⟩
  | command _ env clocks frame ih => exact runTimed_exact (dispatch_fair frame) env clocks ih
  | call _ clocks hp ih => exact runTimed_exact hp.fair _ clocks ih
  | sweep _ now j ih => exact activeExpireCycle_exact ih now j
  | load _ now entries ih => exact loadSnapshotEntries_exact ih now entries
  | tick _ ih => exact ih

/-- No update of a counter has ever subtracted more than it held, and every counter is what the
shard's entries take: the same `usize`, and so the same number as long as that fits into one. -/
theorem bytesUsed_exact {b : Books F} (h : b.Kept) (i : Fin shardCount) :
    b.balance i = some (b.store.shards i).storedBytes ∧
      (b.store.shards i).bytesUsed = UInt64.ofNat (b.store.shards i).storedBytes ∧
      ((b.store.shards i).storedBytes < 2 ^ 64 →
        (b.store.shards i).bytesUsed.toNat = (b.store.shards i).storedBytes) := by
  obtain ⟨hbalance, hused⟩ := h.exact i
  refine ⟨hbalance, hused, fun hfits => ?_⟩
  rw [hused]
  exact UInt64.toNat_ofNat_of_lt' hfits

def setBooks : Books Score :=
  (runTimed Books.exec Env.still (fun _ => .zero)
    (dispatch Env.still (.command [txt "SET", txt "k", txt "v"])) .new).2

theorem bytesUsed_exact_set :
    setBooks.balance (shardIndex (txt "k")) =
        some (setBooks.store.shards (shardIndex (txt "k"))).storedBytes ∧
      (setBooks.store.shards (shardIndex (txt "k"))).bytesUsed =
        UInt64.ofNat (setBooks.store.shards (shardIndex (txt "k"))).storedBytes ∧
      ((setBooks.store.shards (shardIndex (txt "k"))).storedBytes < 2 ^ 64 →
        (setBooks.store.shards (shardIndex (txt "k"))).bytesUsed.toNat =
          (setBooks.store.shards (shardIndex (txt "k"))).storedBytes) :=
  bytesUsed_exact (.command .new Env.still (fun _ => .zero)
    (.command [txt "SET", txt "k", txt "v"])) (shardIndex (txt "k"))

end RocketMem
