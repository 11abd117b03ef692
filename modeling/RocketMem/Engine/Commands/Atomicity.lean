import RocketMem.Engine.Commands.Shapes

namespace RocketMem

open List Function Variant

variable {F : Type} [F64 F] {env : Env} {keys : List Bytes} {key : Bytes}

/-- A command that keeps to its keys and, if it is refused, has done nothing. -/
abbrev Refusable (F : Type) [F64 F] {R : Type} (keys : List Bytes)
    (p : EngineProgram F (EngineResult R)) : Prop := PlainAtomic keys Refused p

section

variable (hmem : env.maxmemory = none) (hk : key ∈ keys)

include hmem hk

theorem setNx_total (val : Bytes) : PlainTotal (F := F) keys (setNx env key val) := by
  refine .bind (.perform hk trivial) fun present => ?_
  split
  · exact .ret _
  · exact .bind (Engine.set_total hmem hk rfl) fun _ => .ret _

theorem setXx_total (val : Bytes) : PlainTotal (F := F) keys (setXx env key val) := by
  refine .bind (.perform hk trivial) fun present => ?_
  split
  · exact .ret _
  · exact .bind (Engine.set_total hmem hk rfl) fun _ => .ret _

theorem append_atomic (suffix : Bytes) : Refusable F keys (append env key suffix) :=
  upsert_atomic hmem hk (string.edit_honest_ok fun _ => ⟨_, rfl⟩) _ (by rintro _ ⟨⟩; rfl)

theorem incrBy_atomic (delta : Int) : Refusable F keys (incrBy env key delta) := by
  refine upsert_atomic hmem hk (string.edit_honest fun b hb => ?_) _ (by rintro _ ⟨⟩; rfl)
  split at hb
  · rfl
  · split at hb
    · rfl
    · exact absurd hb (not_refused_ok _)

theorem getset_atomic (val : Bytes) : Refusable F keys (getset env key val) := by
  refine .bind_looks ((Engine.get_looks hk).bind fun _ => .ret _) fun old => ?_
  split
  · exact .ret _
  · exact (Engine.set_total hmem hk rfl).thenOk _

theorem setrange_atomic (offset : Nat) (value : Bytes) :
    Refusable F keys (setrange env key offset value) := by
  unfold setrange
  split
  · exact .bind_looks (Engine.get_looks hk) fun _ => .ret _
  · refine ⟨?_, fun c ks hks hfail => ?_⟩
    · simp only [Engine.maybeEvict_unlimited hmem]
      refine (Engine.perform_calls hk ?_).bind fun old => ?_
      · exact trivial
      · split
        · split
          · exact .halt
          · exact .ret _
        · exact .ret _
        · split
          · exact .halt
          · exact (Engine.set_calls hmem hk rfl).bind fun _ => .ret _
    · rw [runKeyspace_bind, runKeyspace_perform] at hfail ⊢
      simp only [Engine.maybeEvict_unlimited hmem, KeyOp.onSlot] at hfail ⊢
      rcases hslot : ks key with _ | ⟨v, d⟩
      · rw [hslot] at hfail
        have hsame : update ks key none = ks := by rw [← hslot, update_eq_self]
        by_cases hfits : spliceFits 0 offset value = true
        · simp only [Option.map_none, hfits, Engine.set_unlimited hmem] at hfail
          exact absurd (hfail _ rfl) (not_refused_ok _)
        · simp [hfits, hsame]
      · rw [hslot] at hfail
        have hsame (hv : (spliceValue offset value v).1 = v) :
            update ks key
              (Slot.edit (some (v, d)) fun v => (spliceValue offset value v).1) = ks := by
          have hedit : (ks key).edit (fun v => (spliceValue offset value v).1) = ks key :=
            Slot.edit_same (hks key) fun v' d' h => by rw [hslot] at h; cases h; exact hv
          rw [← hslot, hedit, update_eq_self]
        cases v with
        | string b =>
          by_cases hfits : spliceFits b.length offset value = true
          · simp only [Option.map_some, hfits] at hfail
            exact absurd (hfail _ rfl) (not_refused_ok _)
          · simp only [Option.map_some, hfits]
            exact hsame (by simp [spliceValue, hfits])
        | _ => exact hsame rfl

end

section

variable (hmem : env.maxmemory = none)

include hmem

theorem mset_total (pairs : List (Bytes × Bytes)) (hkeys : ∀ p ∈ pairs, p.1 ∈ keys) :
    PlainTotal (F := F) keys (mset env pairs) := by
  induction pairs with
  | nil => exact .ret _
  | cons p pairs ih =>
    refine .bind (Engine.set_total hmem (hkeys p mem_cons_self) rfl) fun _ => ?_
    exact ih fun q hq => hkeys q (mem_cons_of_mem p hq)

omit hmem in
theorem anyExists_total (ks : List Bytes) (hkeys : ks ⊆ keys) :
    PlainTotal (F := F) keys (anyExists ks) := by
  induction ks with
  | nil => exact .ret _
  | cons k ks ih =>
    refine .bind (.perform (hkeys mem_cons_self) trivial) fun present => ?_
    split
    · exact .ret _
    · exact ih fun k' hk' => hkeys (mem_cons_of_mem k hk')

theorem msetnx_total (pairs : List (Bytes × Bytes)) (hkeys : ∀ p ∈ pairs, p.1 ∈ keys) :
    PlainTotal (F := F) keys (msetnx env pairs) := by
  have hfst : pairs.map Prod.fst ⊆ keys := by
    intro k hk
    obtain ⟨p, hp, rfl⟩ := mem_map.mp hk
    exact hkeys p hp
  refine .bind (anyExists_total _ hfst) fun taken => ?_
  split
  · exact .ret _
  · exact .bind (mset_total hmem pairs hkeys) fun _ => .ret _

end

section

variable (hmem : env.maxmemory = none) (hk : key ∈ keys)

include hmem hk

theorem hset_atomic (field val : Bytes) : Refusable F keys (hset env key field val) :=
  upsert_atomic hmem hk (hash.edit_honest_ok fun _ => ⟨_, rfl⟩) _
    (by rintro _ ⟨⟩; exact hash_insert_nonempty ∅ field val)

theorem hdel_atomic (fields : List Bytes) : Refusable F keys (hdel env key fields) :=
  inPlace_atomic hmem hk _ (hash.edit_honest_ok fun _ => ⟨_, rfl⟩)

theorem hincrby_atomic (field : Bytes) (delta : Int) :
    Refusable F keys (hincrby env key field delta) := by
  refine upsert_atomic hmem hk (hash.edit_honest fun m hm => ?_) _
    (by rintro _ ⟨⟩; exact hash_insert_nonempty ∅ field _)
  split at hm
  · rfl
  · split at hm
    · rfl
    · exact absurd hm (not_refused_ok _)

theorem hsetnx_atomic (field val : Bytes) : Refusable F keys (hsetnx env key field val) := by
  refine upsert_atomic hmem hk (hash.edit_honest_ok fun m => ?_) _
    (by rintro _ ⟨⟩; exact hash_insert_nonempty ∅ field val)
  split <;> exact ⟨_, rfl⟩

end

section

variable (hmem : env.maxmemory = none) (hk : key ∈ keys)

include hmem hk

theorem rpush_atomic (values : List Bytes) : Refusable F keys (rpush env key values) := by
  refine upsert_atomic hmem hk (list.edit_honest_ok fun _ => ⟨_, rfl⟩) _ fun v hv => ?_
  split at hv
  · cases hv
  · next hne =>
    cases hv
    exact list_nonempty fun h => hne (by rw [h]; rfl)

theorem lpush_atomic (values : List Bytes) : Refusable F keys (lpush env key values) := by
  refine upsert_atomic hmem hk (list.edit_honest_ok fun _ => ⟨_, rfl⟩) _ fun v hv => ?_
  split at hv
  · cases hv
  · next hne =>
    cases hv
    exact list_nonempty fun h => hne (by rw [reverse_eq_nil_iff.mp h]; rfl)

theorem lset_atomic (index : Int) (val : Bytes) : Refusable F keys (lset env key index val) := by
  refine inPlace_atomic hmem hk _ (list.edit_honest fun l hl => ?_)
  split at hl
  · rfl
  · exact absurd hl (not_refused_ok _)

theorem ltrim_atomic (start stop : Int) : Refusable F keys (ltrim env key start stop) :=
  inPlace_atomic hmem hk _ (list.edit_honest_ok fun _ => ⟨_, rfl⟩)

theorem lrem_atomic (count : Int) (val : Bytes) : Refusable F keys (lrem env key count val) :=
  inPlace_atomic hmem hk _ (list.edit_honest_ok fun _ => ⟨_, rfl⟩)

theorem linsert_atomic (before : Bool) (pivot val : Bytes) :
    Refusable F keys (linsert env key before pivot val) := by
  refine inPlace_atomic hmem hk _ (list.edit_honest_ok fun l => ?_)
  split <;> exact ⟨_, rfl⟩

end

section

variable (hmem : env.maxmemory = none) {source destination : Bytes}

include hmem

omit hmem in
theorem popFrom_honest (stop : ListEnd) : Honest (popFrom stop : Value F → _) :=
  list.edit_honest_ok fun _ => ⟨_, rfl⟩

theorem pop_atomic (hk : key ∈ keys) (stop : ListEnd) :
    PlainAtomic (F := F) keys Idle (Engine.withMutDelta env key (.ok none) (popFrom stop)) where
  calls := Engine.withMutDelta_calls hmem hk _ _
  unchanged c ks hks hfail := by
    rw [runKeyspace_withMutDelta hmem] at hfail ⊢
    have hsame : (ks key).edit (fun v => (popFrom stop v).2.1) = ks key := by
      refine Slot.edit_same (hks key) fun v d hv => ?_
      rw [hv] at hfail
      rcases hfail _ rfl with hrefused | hnone
      · exact popFrom_honest stop v hrefused
      · cases v with
        | list l =>
          have hpop : (popEnd stop l).1 = none := Except.ok.inj hnone
          have hnil : l = [] := by cases stop <;> simpa [popEnd] using hpop
          rw [hnil]
          cases stop <;> rfl
        | _ => rfl
    simp only [hsame, update_eq_self]

theorem rpop_atomic (hk : key ∈ keys) : PlainAtomic (F := F) keys Idle (rpop env key) :=
  pop_atomic hmem hk .right

theorem lpop_atomic (hk : key ∈ keys) : PlainAtomic (F := F) keys Idle (lpop env key) :=
  pop_atomic hmem hk .left

def Slot.TakesPush (s : Slot F) : Prop := ∀ v d, s = some (v, d) → ∃ l, v = .list l

omit hmem in
theorem Slot.TakesPush.edit_pop {s : Slot F} (hs : s.TakesPush) (stop : ListEnd) :
    Slot.TakesPush (s.edit fun v => (popFrom stop v).2.1) := by
  intro v d hv
  rcases s with _ | ⟨v', d'⟩
  · cases hv
  · obtain ⟨l, rfl⟩ := hs v' d' rfl
    rw [Slot.edit_some] at hv
    split at hv
    · cases hv
    · cases hv
      exact ⟨_, rfl⟩

theorem pushOne_accepted (c : Clock) (stop : ListEnd) (val : Bytes) {ks : Keyspace F}
    (h : (ks key).TakesPush) : (runKeyspace c (pushOne env key stop val) ks).1 = some (.ok ()) := by
  rw [pushOne, runKeyspace_upsert hmem]
  rcases hslot : ks key with _ | ⟨v, d⟩
  · rfl
  · obtain ⟨l, rfl⟩ := h v d hslot
    rfl

theorem pushOne_calls (hk : key ∈ keys) (stop : ListEnd) (val : Bytes) :
    (pushOne env key stop val : EngineProgram F _).Calls (EngineOp.PlainOn (· ∈ keys)) :=
  (upsert_atomic hmem hk (list.edit_honest_ok fun _ => ⟨_, rfl⟩) _
    (by rintro _ ⟨⟩; exact list_nonempty (cons_ne_nil _ _))).calls

theorem pushPopped_calls (hs : source ∈ keys)
    (hd : destination ∈ keys) (start stop : ListEnd) (popped : EngineResult (Option Bytes)) :
    (pushPopped env source destination start stop popped : EngineProgram F _).Calls
      (EngineOp.PlainOn (· ∈ keys)) := by
  unfold pushPopped
  split
  · exact .ret _
  · exact .ret _
  · refine (pushOne_calls hmem hd stop _).bind fun pushed => ?_
    split
    · exact (pushOne_calls hmem hs start _).bind fun _ => .ret _
    · exact .ret _

theorem move_unchanged {c : Clock} {ks : Keyspace F}
    (hks : ks.Sound c) (hdest : (ks destination).TakesPush) (start stop : ListEnd)
    (hfail : Failed Idle (runKeyspace c
      (Engine.withMutDelta env source (.ok none) (popFrom start) >>=
        pushPopped env source destination start stop) ks).1) :
    (runKeyspace c (Engine.withMutDelta env source (.ok none) (popFrom start) >>=
      pushPopped env source destination start stop) ks).2 = ks := by
  have hpop := runKeyspace_withMutDelta hmem c source (.ok none) (popFrom start) ks
  have hidle := (pop_atomic hmem (mem_singleton_self source) start).unchanged c ks hks
  rw [runKeyspace_bind] at hfail ⊢
  rcases hrun : runKeyspace c (Engine.withMutDelta env source (.ok none) (popFrom start)) ks with
    ⟨_ | popped, ks'⟩
  · rw [hrun] at hpop
    cases hpop
  · rw [hrun] at hfail hidle ⊢
    rcases popped with e | _ | val
    · exact hidle fun r hr => by cases hr; exact .inl ⟨e, rfl⟩
    · exact hidle fun r hr => by cases hr; exact .inr rfl
    · -- the element is in hand, and the destination still takes it
      have htakes : (ks' destination).TakesPush := by
        rw [hrun, Prod.mk.injEq] at hpop
        rw [hpop.2]
        by_cases hd : destination = source
        · subst hd
          rw [update_self]
          exact hdest.edit_pop start
        · rwa [update_of_ne hd]
      have hpush := pushOne_accepted hmem c stop val htakes
      have hdone : (runKeyspace c (pushPopped env source destination start stop
          (.ok (some val))) ks').1 = some (.ok (some val)) := by
        rw [pushPopped, runKeyspace_bind]
        rcases hrun' : runKeyspace c (pushOne env destination stop val) ks' with ⟨r, ks''⟩
        rw [hrun'] at hpush
        cases hpush
        rfl
      exact absurd (hfail _ hdone) (not_idle_some val)

theorem lmove_atomic (hs : source ∈ keys) (hd : destination ∈ keys)
    (start stop : ListEnd) :
    PlainAtomic (F := F) keys Idle (lmove env source destination start stop) where
  calls := by
    have hmove := (Engine.withMutDelta_calls (F := F) hmem hs (.ok none) (popFrom start)).bind
      (pushPopped_calls hmem hs hd start stop)
    refine ((Engine.withRef_looks hd).mono fun _ => EngineOp.LooksAt.plainOn).bind fun target => ?_
    split
    · exact .ret _
    · exact .ret _
    · exact .ret _
    · exact .ret _
    · exact hmove
    · exact hmove
  unchanged c ks hks hfail := by
    rw [lmove, runKeyspace_bind, runKeyspace_withRef] at hfail ⊢
    rcases hslot : ks destination with _ | ⟨v, d⟩
    · rw [hslot] at hfail
      exact move_unchanged hmem hks (fun v d h => by rw [hslot] at h; cases h) start stop hfail
    · rw [hslot] at hfail
      cases v with
      | list l =>
        refine move_unchanged hmem hks (fun v d h => ?_) start stop hfail
        rw [hslot] at h
        cases h
        exact ⟨l, rfl⟩
      | _ => rfl

end

section

variable (hmem : env.maxmemory = none) (hk : key ∈ keys)

include hmem hk

theorem sadd_atomic (members : List Bytes) : Refusable F keys (sadd env key members) := by
  refine upsert_atomic hmem hk (set.edit_honest_ok fun _ => ⟨_, rfl⟩) _ fun v hv => ?_
  split at hv
  · cases hv
  · next hne =>
    cases hv
    exact set_nonempty fun h => hne (by rw [(toFinset_eq_empty_iff members).mp h]; rfl)

theorem srem_atomic (members : List Bytes) : Refusable F keys (srem env key members) :=
  inPlace_atomic hmem hk _ (set.edit_honest_ok fun _ => ⟨_, rfl⟩)

theorem spop_atomic : PlainAtomic (F := F) keys Idle (spop env key) where
  calls := Engine.withMutDelta_calls hmem hk _ _
  unchanged c ks hks hfail := by
    rw [spop, runKeyspace_withMutDelta hmem] at hfail ⊢
    dsimp only
    rw [Slot.edit_same (hks key) fun v d hv => ?_, update_eq_self]
    rw [hv] at hfail
    cases v with
    | set s =>
      simp only [Option.elim_some, Variant.edit, Variant.set] at hfail ⊢
      cases hchoose : env.choose s with
      | none => rfl
      | some m =>
        rw [hchoose] at hfail
        exact absurd (hfail _ rfl) (not_idle_some m)
    | _ => rfl

end

section

variable (hmem : env.maxmemory = none)

theorem getSet_looks (hk : key ∈ keys) :
    (getSet key : EngineProgram F _).Calls (EngineOp.LooksAt (· ∈ keys)) := by
  refine (Engine.get_looks hk).bind fun v => ?_
  split <;> exact .ret _

theorem getSets_looks (sources : List Bytes) (hs : sources ⊆ keys) :
    (getSets sources : EngineProgram F _).Calls (EngineOp.LooksAt (· ∈ keys)) := by
  induction sources with
  | nil => exact .ret _
  | cons k sources ih =>
    refine (getSet_looks (hs mem_cons_self)).bind fun r => ?_
    split
    · exact .ret _
    · exact (ih fun k' hk' => hs (mem_cons_of_mem k hk')).bind fun _ => .ret _

include hmem in
theorem storeOrDelete_total {dest : Bytes} (hd : dest ∈ keys) (result : Finset Bytes) :
    PlainTotal (F := F) keys (storeOrDelete env dest result) := by
  unfold storeOrDelete
  split
  · exact .bind (.perform hd trivial) fun _ => .ret _
  · next hne => exact .bind (Engine.set_total hmem hd (set_nonempty hne)) fun _ => .ret _

include hmem in
theorem storeResult_atomic {dest : Bytes} (hd : dest ∈ keys)
    {result : EngineProgram F (EngineResult (Finset Bytes))}
    (hr : result.Calls (EngineOp.LooksAt (· ∈ keys))) :
    PlainAtomic keys Refused (storeResult env dest result) := by
  refine .bind_looks hr fun r => ?_
  split
  · exact .ret _
  · exact (storeOrDelete_total hmem hd _).thenOk _

end

section

variable (hmem : env.maxmemory = none) (hk : key ∈ keys)

include hmem hk

theorem zadd_atomic (score : F) (member : Bytes) :
    PlainAtomic keys Refused (zadd env key score member) :=
  upsert_atomic hmem hk (sortedSet.edit_honest_ok fun _ => ⟨_, rfl⟩) _
    (by rintro _ ⟨⟩; exact sortedSet_insert_nonempty _ member score)

theorem zrem_atomic (members : List Bytes) : Refusable F keys (zrem env key members) :=
  inPlace_atomic hmem hk _ (sortedSet.edit_honest_ok fun _ => ⟨_, rfl⟩)

theorem zincrby_atomic (delta : F) (member : Bytes) :
    PlainAtomic keys Refused (zincrby env key delta member) :=
  upsert_atomic hmem hk (sortedSet.edit_honest_ok fun _ => ⟨_, rfl⟩) _
    (by rintro _ ⟨⟩; exact sortedSet_insert_nonempty _ member delta)

end

def Keyspace.move (ks : Keyspace F) (src dst : Bytes) (e : Value F × Option Nat) : Keyspace F :=
  update (update ks dst (some e)) src none

theorem Keyspace.move_sound {c : Clock} {ks : Keyspace F} (hks : ks.Sound c) {src : Bytes}
    (dst : Bytes) {e : Value F × Option Nat} (he : ks src = some e) : (ks.move src dst e).Sound c :=
  Keyspace.sound_update (Keyspace.sound_update hks dst (he ▸ hks src)) src (Slot.sound_none c)

theorem runKeyspace_reapplyTtl {src dst : Bytes} (hne : src ≠ dst) {ks : Keyspace F}
    {v : Value F} {d : Option Nat} (hs : Slot.Sound env.clock (some (v, d))) :
    runKeyspace env.clock (reapplyTtl env dst (KeyOp.ttl.onSlot env.clock (some (v, d))).1)
        (ks.move src dst (v, none)) =
      (some (), ks.move src dst (v, d)) := by
  cases d with
  | none => rfl
  | some t =>
    obtain ⟨hlater, hfits⟩ := (Slot.sound_some.mp hs).2 t rfl
    have hdeadline : env.clock.mono + (t - env.clock.wall) = t - env.clock.boot := by
      unfold Clock.wall at hlater ⊢
      omega
    have hahead : ¬ t - env.clock.boot ≤ env.clock.mono := by
      unfold Clock.wall at hlater
      omega
    have hback : env.clock.boot + (t - env.clock.boot) = t := by
      unfold Clock.wall at hlater
      omega
    have hinstant : Engine.instantAfter env (t - env.clock.wall) =
        (pure (t - env.clock.boot) : EngineProgram F Nat) := by
      have hreach : ((env.clock.mono : Int) + (t - env.clock.wall : Nat)) / 1000 ≤ i64Max := by
        rw [← Nat.cast_add, hdeadline]
        exact_mod_cast hfits
      rw [Engine.instantAfter, if_pos hreach, hdeadline]
    have hdst : ks.move src dst (v, none) dst = some (v, none) := by
      rw [Keyspace.move, update_of_ne hne.symm, update_self]
    simp only [KeyOp.onSlot, reapplyTtl, hinstant, Program.pure_eq, Program.ret_bind,
      Engine.expireAt]
    rw [runKeyspace_bind, runKeyspace_perform]
    simp only [KeyOp.onSlot, hdst, Option.bind_some, if_neg hahead, hback, runKeyspace_ret]
    rw [Keyspace.move, update_comm hne, update_idem]
    rfl

variable (hmem : env.maxmemory = none) {src dst : Bytes}

include hmem

theorem runKeyspace_moveEntry (hne : src ≠ dst) {ks : Keyspace F}
    {v : Value F} {d : Option Nat} (hs : Slot.Sound env.clock (some (v, d)))
    (hsrc : ks src = some (v, d)) :
    runKeyspace env.clock (moveEntry env src dst v) ks = (some (), ks.move src dst (v, d)) := by
  rw [moveEntry, runKeyspace_bind, runKeyspace_ttl]
  simp only [Engine.set_unlimited hmem]
  rw [runKeyspace_bind, runKeyspace_perform]
  simp only
  rw [runKeyspace_bind, Engine.del, runKeyspace_perform]
  simp only
  rw [hsrc]
  exact runKeyspace_reapplyTtl hne hs

theorem runKeyspace_rename {ks : Keyspace F} (hks : ks.Sound env.clock) (src dst : Bytes) :
    runKeyspace env.clock (rename env src dst) ks =
      match ks src with
      | none => (some (.error .noSuchKey), ks)
      | some e => (some (.ok ()), if src = dst then ks else ks.move src dst e) := by
  rw [rename, runKeyspace_bind, runKeyspace_get]
  rcases hsrc : ks src with _ | ⟨v, d⟩
  · rfl
  · simp only [Option.map_some]
    split
    · rfl
    · next hne =>
      rw [runKeyspace_bind, runKeyspace_moveEntry hmem hne (hsrc ▸ hks src) hsrc]
      rfl

theorem runKeyspace_renamenx {ks : Keyspace F} (hks : ks.Sound env.clock) (src dst : Bytes) :
    runKeyspace env.clock (renamenx env src dst) ks =
      match ks src with
      | none => (some (.error .noSuchKey), ks)
      | some e =>
        if (ks dst).isSome then (some (.ok false), ks) else (some (.ok true), ks.move src dst e) := by
  rw [renamenx, runKeyspace_bind, runKeyspace_get]
  rcases hsrc : ks src with _ | ⟨v, d⟩
  · rfl
  · simp only [Option.map_some]
    rw [runKeyspace_bind, runKeyspace_existsKey]
    dsimp only
    split
    · rfl
    · next hfree =>
      have hne : src ≠ dst := by
        rintro rfl
        rw [hsrc] at hfree
        exact hfree rfl
      rw [runKeyspace_bind, runKeyspace_moveEntry hmem hne (hsrc ▸ hks src) hsrc]
      rfl

theorem moveEntry_touches (hs : src ∈ keys) (hd : dst ∈ keys) (v : Value F) :
    (moveEntry env src dst v).Calls (EngineOp.On (· ∈ keys)) := by
  refine Program.Calls.bind (.perform hs) fun ttl => ?_
  rw [Engine.set_unlimited hmem]
  refine Program.Calls.bind (.perform hd) fun _ => Program.Calls.bind (.perform hs) fun _ => ?_
  unfold reapplyTtl
  split
  · refine Program.Calls.bind ?_ fun _ => Program.Calls.bind (.perform hd) fun _ => .ret _
    unfold Engine.instantAfter
    split
    · exact .ret _
    · exact .halt
  · exact .ret _

theorem rename_atomic (hs : src ∈ keys) (hd : dst ∈ keys) :
    Atomic (F := F) env.clock keys Refused (rename env src dst) where
  touches := by
    refine Program.Calls.bind (.perform hs) fun v => ?_
    split
    · exact .ret _
    · split
      · exact .ret _
      · exact (moveEntry_touches hmem hs hd _).bind fun _ => .ret _
  sound ks hks := by
    rw [runKeyspace_rename hmem hks]
    rcases hsrc : ks src with _ | e
    · exact hks
    · dsimp only
      split
      · exact hks
      · exact Keyspace.move_sound hks dst hsrc
  unchanged ks hks hfail := by
    rw [runKeyspace_rename hmem hks] at hfail ⊢
    rcases hsrc : ks src with _ | e
    · rfl
    · rw [hsrc] at hfail
      exact absurd (hfail _ rfl) (not_refused_ok _)

theorem renamenx_atomic (hs : src ∈ keys) (hd : dst ∈ keys) :
    Atomic (F := F) env.clock keys Refused (renamenx env src dst) where
  touches := by
    refine Program.Calls.bind (.perform hs) fun v => ?_
    split
    · exact .ret _
    · refine Program.Calls.bind (.perform hd) fun taken => ?_
      split
      · exact .ret _
      · exact (moveEntry_touches hmem hs hd _).bind fun _ => .ret _
  sound ks hks := by
    rw [runKeyspace_renamenx hmem hks]
    rcases hsrc : ks src with _ | e
    · exact hks
    · dsimp only
      split
      · exact hks
      · exact Keyspace.move_sound hks dst hsrc
  unchanged ks hks hfail := by
    rw [runKeyspace_renamenx hmem hks] at hfail ⊢
    rcases hsrc : ks src with _ | e
    · rfl
    · rw [hsrc] at hfail
      dsimp only at hfail ⊢
      split at hfail
      · next h => rw [if_pos h]
      · exact absurd (hfail _ rfl) (not_refused_ok _)

end RocketMem
