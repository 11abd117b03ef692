import RocketMem.Engine.Commands.Atomicity
import RocketMem.Server.Dispatch

namespace RocketMem

open List

variable {F : Type} [F64 F] {env : Env}

def IsError (reply : Frame) : Prop := reply.isError = true

section

variable {α : Type} {keys : List Bytes} {f : α → Frame}

theorem replyWith_error (hf : ∀ a, (f a).isError = false) {r : EngineResult α}
    (h : IsError (replyWith f r)) : Refused r := by
  cases r with
  | error e => exact ⟨e, rfl⟩
  | ok a => exact absurd h (by simp [IsError, replyWith, hf])

theorem PlainAtomic.reply {p : EngineProgram F (EngineResult α)} (hp : PlainAtomic keys Refused p)
    (hf : ∀ a, (f a).isError = false) : PlainAtomic keys IsError (replyWith f <$> p) :=
  hp.map fun _ => replyWith_error hf

theorem Atomic.reply {c : Clock} {p : EngineProgram F (EngineResult α)}
    (hp : Atomic c keys Refused p) (hf : ∀ a, (f a).isError = false) :
    Atomic c keys IsError (replyWith f <$> p) :=
  hp.map fun _ => replyWith_error hf

/-- The arm of a write to the key that is its first argument, which if it fails has done nothing. -/
abbrev OnFirstKey (F : Type) [F64 F] (args : List Bytes) (p : EngineProgram F Frame) : Prop :=
  PlainAtomic (args.take 1) IsError p

def IsIdle (reply : Frame) : Prop := IsError reply ∨ reply = .null

theorem PlainAtomic.replyIdle {p : EngineProgram F (EngineResult (Option α))}
    (hp : PlainAtomic keys Idle p) {f : Option α → Frame}
    (hf : ∀ a, (f (some a)).isError = false ∧ f (some a) ≠ .null) :
    PlainAtomic keys IsIdle (replyWith f <$> p) :=
  hp.map fun r hr => by
    rcases r with e | _ | a
    · exact .inl ⟨e, rfl⟩
    · exact .inr rfl
    · rcases hr with herror | hnull
      · exact absurd herror (by simp [IsError, replyWith, hf])
      · exact absurd hnull (hf a).2

theorem PlainTotal.reply {p : EngineProgram F α} (hp : PlainTotal keys p)
    (hf : ∀ a, (f a).isError = false) : PlainAtomic keys IsError (f <$> p) :=
  (hp.atomic fun _ => not_false).map fun a h =>
    absurd h (by simp [IsError, hf])

theorem bulk_not_idle (b : Bytes) :
    (bulkOrNull (some b)).isError = false ∧ bulkOrNull (some b) ≠ .null :=
  ⟨rfl, nofun⟩

theorem bulkOrNull_isError (r : Option Bytes) : (bulkOrNull r).isError = false := by
  cases r <;> rfl

end

namespace Dispatch

section

variable (hmem : env.maxmemory = none) (args : List Bytes)

theorem countKeys_total {keys : List Bytes} {test : Bytes → EngineProgram F Bool}
    (htest : ∀ k ∈ keys, PlainTotal keys (test k)) (ks : List Bytes) (hks : ks ⊆ keys) :
    PlainTotal keys (countKeys test ks) := by
  induction ks with
  | nil => exact .ret _
  | cons k ks ih =>
    refine .bind (htest k (hks mem_cons_self)) fun hit => ?_
    exact .bind (ih fun k' hk' => hks (mem_cons_of_mem k hk')) fun n => .ret _

theorem del_atomic : PlainAtomic (F := F) args IsError (del args) := by
  unfold del
  split
  · exact .ret _
  · exact (countKeys_total (fun k hk => Engine.del_total hk) _ (List.Subset.refl _)).reply
      fun _ => rfl

include hmem

theorem append_atomic : OnFirstKey F args (append env args) := by
  unfold append
  split
  · exact (RocketMem.append_atomic hmem mem_cons_self _).reply fun _ => rfl
  · exact .ret _

theorem setrange_atomic : OnFirstKey F args (setrange env args) := by
  unfold setrange
  split
  · split
    · exact .ret _
    · split
      · exact .ret _
      · exact (RocketMem.setrange_atomic hmem mem_cons_self _ _).reply fun _ => rfl
  · exact .ret _

theorem incr_atomic : OnFirstKey F args (incr env args) := by
  unfold incr
  split
  · exact (RocketMem.incrBy_atomic hmem mem_cons_self _).reply fun _ => rfl
  · exact .ret _

theorem decr_atomic : OnFirstKey F args (decr env args) := by
  unfold decr
  split
  · exact (RocketMem.incrBy_atomic hmem mem_cons_self _).reply fun _ => rfl
  · exact .ret _

theorem incrby_atomic : OnFirstKey F args (incrby env args) := by
  unfold incrby
  split
  · split
    · exact .ret _
    · exact (RocketMem.incrBy_atomic hmem mem_cons_self _).reply fun _ => rfl
  · exact .ret _

theorem getset_atomic : OnFirstKey F args (getset env args) := by
  unfold getset
  split
  · exact (RocketMem.getset_atomic hmem mem_cons_self _).reply bulkOrNull_isError
  · exact .ret _

omit hmem in
theorem pairs_fst_mem (words : List Bytes) : ∀ p ∈ pairs words, p.1 ∈ stepByTwo words := by
  induction words using pairs.induct with
  | case1 k v rest ih =>
    intro p hp
    rcases mem_cons.mp hp with rfl | hp
    · exact mem_cons_self
    · exact mem_cons_of_mem _ (ih p hp)
  | case2 words hshort =>
    intro p hp
    rw [pairs] at hp
    · cases hp
    · exact hshort

theorem mset_atomic : PlainAtomic (F := F) (stepByTwo args) IsError (mset env args) := by
  unfold mset
  split
  · split
    · exact .ret _
    · exact (mset_total hmem _ (pairs_fst_mem _)).reply fun _ => rfl
  · exact .ret _

theorem msetnx_atomic : PlainAtomic (F := F) (stepByTwo args) IsError (msetnx env args) := by
  unfold msetnx
  split
  · split
    · exact .ret _
    · exact (msetnx_total hmem _ (pairs_fst_mem _)).reply fun _ => rfl
  · exact .ret _

end

section

variable (hmem : env.maxmemory = none) (args : List Bytes)

include hmem

theorem hdel_atomic : OnFirstKey F args (hdel env args) := by
  unfold hdel
  split
  · exact (RocketMem.hdel_atomic hmem mem_cons_self _).reply fun _ => rfl
  · exact .ret _

theorem hincrby_atomic : OnFirstKey F args (hincrby env args) := by
  unfold hincrby
  split
  · split
    · exact .ret _
    · exact (RocketMem.hincrby_atomic hmem mem_cons_self _ _).reply fun _ => rfl
  · exact .ret _

theorem hsetnx_atomic : OnFirstKey F args (hsetnx env args) := by
  unfold hsetnx
  split
  · exact (RocketMem.hsetnx_atomic hmem mem_cons_self _ _).reply fun _ => rfl
  · exact .ret _

theorem hsetPairs_accepted (c : Clock) (key : Bytes) (ps : List (Bytes × Bytes)) (added : Int)
    {ks : Keyspace F} (h : ∀ v d, ks key = some (v, d) → ∃ m, v = .hash m) :
    ∃ n, (runKeyspace c (hsetPairs env key ps added) ks).1 = some (.integer n) := by
  induction ps generalizing added ks with
  | nil => exact ⟨added, rfl⟩
  | cons p ps ih =>
    rw [hsetPairs, runKeyspace_bind, RocketMem.hset, runKeyspace_upsert hmem]
    rcases hslot : ks key with _ | ⟨v, d⟩
    · refine ih _ fun v d hv => ?_
      rw [Function.update_self] at hv
      cases hv
      exact ⟨_, rfl⟩
    · obtain ⟨m, rfl⟩ := h v d hslot
      refine ih _ fun v' d' hv => ?_
      rw [Function.update_self, Slot.edit_some] at hv
      split at hv
      · cases hv
      · cases hv
        exact ⟨_, rfl⟩

theorem hsetPairs_atomic {keys : List Bytes} {key : Bytes} (hk : key ∈ keys)
    (ps : List (Bytes × Bytes)) (added : Int) :
    PlainAtomic (F := F) keys IsError (hsetPairs env key ps added) where
  calls := by
    induction ps generalizing added with
    | nil => exact .ret _
    | cons p ps ih =>
      refine (RocketMem.hset_atomic hmem hk _ _).calls.bind fun r => ?_
      split
      · exact .ret _
      · exact ih _
  unchanged c ks hks hfail := by
    by_cases hhash : ∀ v d, ks key = some (v, d) → ∃ m, v = .hash m
    · obtain ⟨n, hn⟩ := hsetPairs_accepted hmem c key ps added hhash
      exact absurd (hfail _ hn) (by simp [IsError, Frame.isError])
    · -- the first pair meets a value of another type
      cases ps with
      | nil => rfl
      | cons p ps =>
        have hrefused := (RocketMem.hset_atomic hmem hk p.1 p.2).unchanged c ks hks
        push Not at hhash
        obtain ⟨v, d, hslot, hv⟩ := hhash
        have hrun : (runKeyspace c (RocketMem.hset env key p.1 p.2) ks).1 =
            some (.error .wrongType) := by
          rw [RocketMem.hset, runKeyspace_upsert hmem, hslot]
          cases v with
          | hash m => exact absurd rfl (hv m)
          | _ => rfl
        rw [hsetPairs, runKeyspace_bind]
        rcases hres : runKeyspace c (RocketMem.hset env key p.1 p.2) ks with ⟨r, ks'⟩
        rw [hres] at hrun hrefused
        cases hrun
        exact hrefused fun r hr => by cases hr; exact ⟨_, rfl⟩

theorem hset_atomic : OnFirstKey F args (hset env args) := by
  unfold hset
  split
  · split
    · exact .ret _
    · exact hsetPairs_atomic hmem mem_cons_self _ _
  · exact .ret _

end

section

variable (hmem : env.maxmemory = none) (args : List Bytes)

include hmem

theorem rpush_atomic : OnFirstKey F args (rpush env args) := by
  unfold rpush
  split
  · exact (RocketMem.rpush_atomic hmem mem_cons_self _).reply fun _ => rfl
  · exact .ret _

theorem lpush_atomic : OnFirstKey F args (lpush env args) := by
  unfold lpush
  split
  · exact (RocketMem.lpush_atomic hmem mem_cons_self _).reply fun _ => rfl
  · exact .ret _

theorem rpop_atomic : PlainAtomic (F := F) (args.take 1) IsIdle (rpop env args) := by
  unfold rpop
  split
  · exact (RocketMem.rpop_atomic hmem mem_cons_self).replyIdle bulk_not_idle
  · exact .ret _

theorem lpop_atomic : PlainAtomic (F := F) (args.take 1) IsIdle (lpop env args) := by
  unfold lpop
  split
  · exact (RocketMem.lpop_atomic hmem mem_cons_self).replyIdle bulk_not_idle
  · exact .ret _

theorem lset_atomic : OnFirstKey F args (lset env args) := by
  unfold lset
  split
  · split
    · exact .ret _
    · exact (RocketMem.lset_atomic hmem mem_cons_self _ _).reply fun _ => rfl
  · exact .ret _

theorem ltrim_atomic : OnFirstKey F args (ltrim env args) := by
  unfold ltrim
  split
  · split
    · exact (RocketMem.ltrim_atomic hmem mem_cons_self _ _).reply fun _ => rfl
    · exact .ret _
  · exact .ret _

theorem lrem_atomic : OnFirstKey F args (lrem env args) := by
  unfold lrem
  split
  · split
    · exact .ret _
    · exact (RocketMem.lrem_atomic hmem mem_cons_self _ _).reply fun _ => rfl
  · exact .ret _

theorem linsert_atomic : OnFirstKey F args (linsert env args) := by
  unfold linsert
  split
  · split
    · exact (RocketMem.linsert_atomic hmem mem_cons_self _ _ _).reply fun _ => rfl
    · split
      · exact (RocketMem.linsert_atomic hmem mem_cons_self _ _ _).reply fun _ => rfl
      · exact .ret _
  · exact .ret _

theorem move_atomic (src dst : Bytes) (start stop : ListEnd) :
    PlainAtomic (F := F) [src, dst] IsIdle
      (replyWith bulkOrNull <$> RocketMem.lmove env src dst start stop) :=
  (RocketMem.lmove_atomic hmem mem_cons_self (.tail _ mem_cons_self) _ _).replyIdle bulk_not_idle

theorem lmove_atomic : PlainAtomic (F := F) (args.take 2) IsIdle (lmove env args) := by
  unfold lmove
  split
  · split
    · exact .ret _
    · exact move_atomic hmem _ _ _ _
  · exact .ret _

theorem rpoplpush_atomic : PlainAtomic (F := F) (args.take 2) IsIdle (rpoplpush env args) := by
  unfold rpoplpush
  split
  · exact move_atomic hmem _ _ _ _
  · exact .ret _

theorem blmove_atomic : PlainAtomic (F := F) (args.take 2) IsIdle (blmove env args) := by
  unfold blmove
  split
  · split
    · exact .ret _
    · split
      · exact .ret _
      · exact move_atomic hmem _ _ _ _
  · exact .ret _

theorem brpoplpush_atomic : PlainAtomic (F := F) (args.take 2) IsIdle (brpoplpush env args) := by
  unfold brpoplpush
  split
  · split
    · exact .ret _
    · exact move_atomic hmem _ _ _ _
  · exact .ret _

omit hmem in
theorem popAt_eq (stop : ListEnd) (key : Bytes) :
    (popAt env stop key : EngineProgram F _) =
      Engine.withMutDelta env key (.ok none) (popFrom stop) := by
  cases stop <;> rfl

theorem firstAvailablePop_atomic {keys : List Bytes} (stop : ListEnd) (ks : List Bytes)
    (hsub : ks ⊆ keys) : PlainAtomic (F := F) keys Idle (firstAvailablePop env stop ks) := by
  induction ks with
  | nil => exact .ret _
  | cons key rest ih =>
    have hrest := ih fun k hk' => hsub (mem_cons_of_mem key hk')
    have hpop := pop_atomic (F := F) hmem (hsub mem_cons_self) stop
    rw [firstAvailablePop, popAt_eq]
    refine ⟨hpop.calls.bind fun r => ?_, fun c m hm hfail => ?_⟩
    · split
      · exact .ret _
      · exact .ret _
      · exact hrest.calls
    · have hidle := hpop.unchanged c m hm
      have hreturns := runKeyspace_withMutDelta hmem c key (.ok none) (popFrom stop) m
      rw [runKeyspace_bind] at hfail ⊢
      rcases hrun : runKeyspace c (Engine.withMutDelta env key (.ok none) (popFrom stop)) m with
        ⟨_ | r, m'⟩
      · rw [hrun] at hreturns
        cases hreturns
      · rw [hrun] at hfail hidle ⊢
        rcases r with e | _ | val
        · exact hidle fun r hr => by cases hr; exact .inl ⟨e, rfl⟩
        · have hsame : m' = m := hidle fun r hr => by cases hr; exact .inr rfl
          subst hsame
          exact hrest.unchanged c _ hm hfail
        · exact absurd (hfail _ rfl) (not_idle_some _)

omit hmem in
theorem popped_not_idle (r : Bytes × Bytes) :
    (poppedReply (some r)).isError = false ∧ poppedReply (some r) ≠ .null :=
  ⟨rfl, nofun⟩

theorem blockingPop_atomic (name : String) (stop : ListEnd) (args : List Bytes) :
    PlainAtomic (F := F) (args.take (args.length - 1)) IsIdle (blockingPop env name stop args) := by
  unfold blockingPop
  split
  · split
    · exact .ret _
    · refine (firstAvailablePop_atomic hmem stop _ ?_).replyIdle popped_not_idle
      rw [← dropLast_eq_take]
      exact List.Subset.refl _
  · exact .ret _

end

section

variable (hmem : env.maxmemory = none) (args : List Bytes)

include hmem

theorem sadd_atomic : OnFirstKey F args (sadd env args) := by
  unfold sadd
  split
  · exact (RocketMem.sadd_atomic hmem mem_cons_self _).reply fun _ => rfl
  · exact .ret _

theorem srem_atomic : OnFirstKey F args (srem env args) := by
  unfold srem
  split
  · exact (RocketMem.srem_atomic hmem mem_cons_self _).reply fun _ => rfl
  · exact .ret _

theorem spop_atomic : PlainAtomic (F := F) (args.take 1) IsIdle (spop env args) := by
  unfold spop
  split
  · exact (RocketMem.spop_atomic hmem mem_cons_self).replyIdle bulk_not_idle
  · exact .ret _

theorem sinterstore_atomic : PlainAtomic (F := F) args IsError (sinterstore env args) := by
  unfold sinterstore
  split
  · exact (storeResult_atomic hmem mem_cons_self ((getSets_looks _ fun k hk =>
      mem_cons_of_mem _ hk).bind fun _ => .ret _)).reply fun _ => rfl
  · exact .ret _

theorem sunionstore_atomic : PlainAtomic (F := F) args IsError (sunionstore env args) := by
  unfold sunionstore
  split
  · exact (storeResult_atomic hmem mem_cons_self ((getSets_looks _ fun k hk =>
      mem_cons_of_mem _ hk).bind fun _ => .ret _)).reply fun _ => rfl
  · exact .ret _

theorem sdiffstore_atomic : PlainAtomic (F := F) args IsError (sdiffstore env args) := by
  unfold sdiffstore
  split
  · exact (storeResult_atomic hmem mem_cons_self ((getSets_looks _ fun k hk =>
      mem_cons_of_mem _ hk).bind fun _ => .ret _)).reply fun _ => rfl
  · exact .ret _

end

section

variable (hmem : env.maxmemory = none)

include hmem

theorem zadd_atomic (args : List Bytes) : OnFirstKey F args (zadd env args) := by
  unfold zadd
  split
  · split
    · exact .ret _
    · exact (RocketMem.zadd_atomic hmem mem_cons_self _ _).reply fun _ => rfl
  · exact .ret _

theorem zrem_atomic (args : List Bytes) : OnFirstKey F args (zrem env args) := by
  unfold zrem
  split
  · exact (RocketMem.zrem_atomic hmem mem_cons_self _).reply fun _ => rfl
  · exact .ret _

theorem zincrby_atomic (args : List Bytes) : OnFirstKey F args (zincrby env args) := by
  unfold zincrby
  split
  · split
    · exact .ret _
    · exact (RocketMem.zincrby_atomic hmem mem_cons_self _ _).reply fun _ => rfl
  · exact .ret _

end

theorem persist_atomic (args : List Bytes) : OnFirstKey F args (persist args) := by
  unfold persist
  split
  · exact (Engine.persist_total mem_cons_self).reply fun _ => rfl
  · exact .ret _

end Dispatch

end RocketMem
