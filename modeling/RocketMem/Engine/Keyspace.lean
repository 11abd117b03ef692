import RocketMem.Engine.Operation

namespace RocketMem

open Function

variable {F : Type} [F64 F] (c : Clock)

/-- What a client can see of one key: nothing, or a value with its deadline in Unix milliseconds. -/
abbrev Slot (F : Type) [F64 F] := Option (Value F × Option Nat)

/-- The store as clients see it: expired entries are gone, and shards, sizes and recency do not
show. -/
abbrev Keyspace (F : Type) [F64 F] := Bytes → Slot F

def Entry.slot (c : Clock) (e : Entry F) : Slot F :=
  if e.isExpired c.mono then none else some (e.value, e.expiresAt.map (c.boot + ·))

def Shard.slot (c : Clock) (s : Shard F) (key : Bytes) : Slot F :=
  (s.map.lookup key).bind (Entry.slot c)

def Store.live (c : Clock) (st : Store F) : Keyspace F := fun k => (st.shardFor k).slot c k

def KeyOp.onSlot (c : Clock) : (op : KeyOp F) → Slot F → op.Ret × Slot F
  | get, s => (s.map Prod.fst, s)
  | set value, _ => ((), some (value, none))
  | del, s => (s.isSome, none)
  | existsKey, s => (s.isSome, s)
  | withRef, s => (s.map Prod.fst, s)
  | withMutDelta f, s =>
    (s.map Prod.fst,
      s.bind fun e => if (f e.1).1.isEmptyCollection then none else some ((f e.1).1, e.2))
  | expireAt deadline, s =>
    (s.isSome,
      s.bind fun e => if deadline ≤ c.mono then none else some (e.1, some (c.boot + deadline)))
  | persist, s => (s.elim false fun e => e.2.isSome, s.map fun e => (e.1, none))
  | ttl, s =>
    (match s with
      | none => .noSuchKey
      | some (_, none) => .noExpiry
      | some (_, some deadline) => .remaining (deadline - c.wall), s)

def EngineOp.onKeyspace (c : Clock) : (o : EngineOp F) → Keyspace F → o.Ret × Keyspace F
  | key k op, ks => ((op.onSlot c (ks k)).1, update ks k (op.onSlot c (ks k)).2)
  | shardKeys _, ks => ([], ks)
  | shardCounts _, ks => ((0, 0), ks)
  | shardBytesUsed _, ks => (0, ks)
  | sampleRecency _ _, ks => ([], ks)

def runKeyspace (c : Clock) {α : Type} (p : EngineProgram F α) (ks : Keyspace F) :
    Option α × Keyspace F :=
  p.run (EngineOp.onKeyspace c) ks

def EngineOp.On (K : Bytes → Prop) : EngineOp F → Prop
  | key k _ => K k
  | _ => False

section

variable (c : Clock) (s : Shard F) (key : Bytes) {e : Entry F}

theorem Shard.slot_of_lookup_none (h : s.map.lookup key = none) : s.slot c key = none := by
  rw [slot, h, Option.bind_none]

theorem Shard.slot_of_lookup_some (h : s.map.lookup key = some e) : s.slot c key = e.slot c := by
  rw [slot, h, Option.bind_some]

theorem Entry.slot_of_expired (h : e.isExpired c.mono = true) : e.slot c = none :=
  if_pos h

theorem Entry.slot_of_live (h : ¬ e.isExpired c.mono = true) :
    e.slot c = some (e.value, e.expiresAt.map (c.boot + ·)) :=
  if_neg h

@[simp] theorem Shard.slot_drop (e : Entry F) : (s.drop key e).slot c key = none := by
  simp [slot, drop]

@[simp] theorem Shard.slot_insert (e : Entry F) (used : UInt64) :
    (Shard.mk (s.map.insert key e) used).slot c key = e.slot c := by
  simp [slot]

@[simp] theorem Shard.slot_put (e : Entry F) : (s.put key e).slot c key = e.slot c :=
  slot_insert c s key e s.bytesUsed

theorem Entry.slot_stamp (h : ¬ e.isExpired c.mono = true) (tick : Nat) :
    ({ e with lastTouched := tick } : Entry F).slot c =
      some (e.value, e.expiresAt.map (c.boot + ·)) :=
  Entry.slot_of_live c h

theorem Shard.slot_cases :
    s.map.lookup key = none ∧ s.slot c key = none ∨
      ∃ e, s.map.lookup key = some e ∧ (e.isExpired c.mono = true ∧ s.slot c key = none ∨
        ¬ e.isExpired c.mono = true ∧
          s.slot c key = some (e.value, e.expiresAt.map (c.boot + ·))) := by
  cases h : s.map.lookup key with
  | none => exact .inl ⟨rfl, s.slot_of_lookup_none c key h⟩
  | some e =>
    refine .inr ⟨e, rfl, ?_⟩
    rw [s.slot_of_lookup_some c key h]
    by_cases he : e.isExpired c.mono = true
    · exact .inl ⟨he, Entry.slot_of_expired c he⟩
    · exact .inr ⟨he, Entry.slot_of_live c he⟩

end

theorem Shard.get_slot (tick : Nat) (s : Shard F) (key : Bytes) :
    ((s.get c.mono tick key).1, (s.get c.mono tick key).2.slot c key) =
      KeyOp.get.onSlot c (s.slot c key) := by
  unfold get KeyOp.onSlot
  obtain ⟨h, hs⟩ | ⟨e, h, ⟨he, hs⟩ | ⟨he, hs⟩⟩ := s.slot_cases c key
  · simp [h, hs]
  · simp [h, he, hs]
  · simp [h, he, hs, Entry.slot_stamp c he]

theorem Shard.set_slot (tick : Nat) (s : Shard F) (key : Bytes) (value : Value F) :
    (s.set tick key value).slot c key = some (value, none) := by
  simp [set, Entry.slot, Entry.isExpired]

theorem Shard.del_slot (s : Shard F) (key : Bytes) :
    ((s.del c.mono key).1, (s.del c.mono key).2.slot c key) =
      KeyOp.del.onSlot c (s.slot c key) := by
  unfold del KeyOp.onSlot
  obtain ⟨h, hs⟩ | ⟨e, h, ⟨he, hs⟩ | ⟨he, hs⟩⟩ := s.slot_cases c key
  · simp [h, hs]
  · simp [h, he, hs]
  · simp [h, he, hs]

theorem Shard.withRef_slot (tick : Nat) (s : Shard F) (key : Bytes) :
    ((s.withRef c.mono tick key).1, (s.withRef c.mono tick key).2.slot c key) =
      KeyOp.withRef.onSlot c (s.slot c key) := by
  unfold withRef KeyOp.onSlot
  obtain ⟨h, hs⟩ | ⟨e, h, ⟨he, hs⟩ | ⟨he, hs⟩⟩ := s.slot_cases c key
  · simp [h, hs]
  · simp [h, he, hs]
  · simp [h, he, hs, Entry.slot_stamp c he]

theorem Shard.withMutDelta_slot (tick : Nat) (s : Shard F) (key : Bytes)
    (f : Value F → Value F × Int) :
    ((s.withMutDelta c.mono tick key f).1, (s.withMutDelta c.mono tick key f).2.slot c key) =
      (KeyOp.withMutDelta f).onSlot c (s.slot c key) := by
  unfold withMutDelta KeyOp.onSlot
  obtain ⟨h, hs⟩ | ⟨e, h, ⟨he, hs⟩ | ⟨he, hs⟩⟩ := s.slot_cases c key
  · simp [h, hs]
  · simp [h, he, hs]
  · have hlive : ¬ (⟨(f e.value).1, e.expiresAt, tick⟩ : Entry F).isExpired c.mono = true := he
    simp only [h, he, hs, Bool.false_eq_true, if_false, Option.map_some, Option.bind_some]
    split
    · rw [Shard.slot_drop]
    · rw [Shard.slot_insert, Entry.slot_of_live c hlive]

theorem Shard.expireAt_slot (s : Shard F) (key : Bytes) (deadline : Nat) :
    ((s.expireAt c.mono key deadline).1, (s.expireAt c.mono key deadline).2.slot c key) =
      (KeyOp.expireAt deadline).onSlot c (s.slot c key) := by
  unfold expireAt KeyOp.onSlot
  obtain ⟨h, hs⟩ | ⟨e, h, ⟨he, hs⟩ | ⟨he, hs⟩⟩ := s.slot_cases c key
  · simp [h, hs]
  · simp [h, he, hs]
  · simp [h, he, hs]
    simp [Entry.slot, Entry.isExpired]

theorem Shard.persist_slot (s : Shard F) (key : Bytes) :
    ((s.persist c.mono key).1, (s.persist c.mono key).2.slot c key) =
      KeyOp.persist.onSlot c (s.slot c key) := by
  unfold persist KeyOp.onSlot
  obtain ⟨h, hs⟩ | ⟨e, h, ⟨he, hs⟩ | ⟨he, hs⟩⟩ := s.slot_cases c key
  · simp [h, hs]
  · simp [h, he, hs]
  · cases hx : e.expiresAt with
    | none => simp [h, he, hs, hx]
    | some deadline =>
      simp [h, he, hs, hx]
      simp [Entry.slot, Entry.isExpired]

theorem Shard.ttl_slot (s : Shard F) (key : Bytes) :
    s.ttl c.mono key = (KeyOp.ttl.onSlot c (s.slot c key)).1 := by
  unfold ttl KeyOp.onSlot
  obtain ⟨h, hs⟩ | ⟨e, h, ⟨he, hs⟩ | ⟨he, hs⟩⟩ := s.slot_cases c key
  · simp [h, hs]
  · simp [h, he, hs]
  · cases hx : e.expiresAt with
    | none => simp [h, he, hs, hx]
    | some deadline =>
      simp only [h, he, hs, hx, Clock.wall, Bool.false_eq_true, if_false, Option.map_some]
      congr 1
      omega

theorem Store.live_withShard (st : Store F) (key : Bytes) (s : Shard F)
    (h : (st.shardFor key).ChangesOnly key s) :
    (st.withShard key s h).live c = update (st.live c) key (s.slot c key) := by
  funext k
  by_cases hk : k = key
  · subst hk
    simp [live, withShard, shardFor]
  · rw [update_of_ne hk]
    by_cases hi : shardIndex k = shardIndex key
    · have hlookup := h k hk
      simp only [live, withShard, shardFor, hi, update_self, Shard.slot] at hlookup ⊢
      rw [hlookup]
    · simp only [live, withShard, shardFor, update_of_ne hi]

theorem Store.withShard_refines (st : Store F) (k : Bytes) (op : KeyOp F) {r : op.Ret}
    {s : Shard F} (h : (st.shardFor k).ChangesOnly k s)
    (hs : (r, s.slot c k) = op.onSlot c ((st.shardFor k).slot c k)) :
    r = (op.onSlot c (st.live c k)).1 ∧
      (st.withShard k s h).live c = update (st.live c) k (op.onSlot c (st.live c k)).2 := by
  have hlive : st.live c k = (st.shardFor k).slot c k := rfl
  rw [live_withShard, hlive, ← hs]
  exact ⟨rfl, rfl⟩

theorem KeyOp.exec_live (k : Bytes) (st : Store F) (op : KeyOp F) :
    (op.exec c.mono k st).1 = (op.onSlot c (st.live c k)).1 ∧
      (op.exec c.mono k st).2.live c = update (st.live c) k (op.onSlot c (st.live c k)).2 := by
  cases op with
  | get =>
    exact st.withShard_refines c k .get (Shard.get_changesOnly _ _ _ _)
      ((st.shardFor k).get_slot c st.tick k)
  | set value =>
    have h := (st.shardFor k).set_slot c st.tick k value
    exact st.withShard_refines c k (.set value) (Shard.changesOnly_insert _ _ _ _)
      (congrArg (Prod.mk ()) h)
  | del =>
    exact st.withShard_refines c k .del (Shard.del_changesOnly _ _ _) ((st.shardFor k).del_slot c k)
  | existsKey =>
    have h := (st.shardFor k).withRef_slot c st.tick k
    have hsome := congrArg (fun r => (Option.isSome (Prod.fst r), Prod.snd r)) h
    refine st.withShard_refines c k .existsKey (Shard.withRef_changesOnly _ _ _ _) (hsome.trans ?_)
    simp only [onSlot, Option.isSome_map]
  | withRef =>
    exact st.withShard_refines c k .withRef (Shard.withRef_changesOnly _ _ _ _)
      ((st.shardFor k).withRef_slot c st.tick k)
  | withMutDelta f =>
    exact st.withShard_refines c k (.withMutDelta f) (Shard.withMutDelta_changesOnly _ _ _ _ _)
      ((st.shardFor k).withMutDelta_slot c st.tick k f)
  | expireAt deadline =>
    exact st.withShard_refines c k (.expireAt deadline) (Shard.expireAt_changesOnly _ _ _ _)
      ((st.shardFor k).expireAt_slot c k deadline)
  | persist =>
    exact st.withShard_refines c k .persist (Shard.persist_changesOnly _ _ _)
      ((st.shardFor k).persist_slot c k)
  | ttl => exact ⟨(st.shardFor k).ttl_slot c k, (update_eq_self k (st.live c)).symm⟩

theorem runEngine_live {K : Bytes → Prop} {α : Type} {p : EngineProgram F α}
    (hp : p.Calls (EngineOp.On K)) (env : Env) (st : Store F) :
    (runEngine env p st).1 = (runKeyspace env.clock p (st.live env.clock)).1 ∧
      (runEngine env p st).2.live env.clock = (runKeyspace env.clock p (st.live env.clock)).2 := by
  refine Program.run_simulates hp (R := fun (st : Store F) ks => st.live env.clock = ks) ?_ rfl
  rintro o ho st _ rfl
  cases o with
  | key k op => exact KeyOp.exec_live env.clock k st op
  | _ => exact ho.elim

variable {K : Bytes → Prop} {α : Type} {p : EngineProgram F α}

theorem runKeyspace_frame (hp : p.Calls (EngineOp.On K)) (c : Clock) (ks : Keyspace F) {k : Bytes}
    (hk : ¬ K k) : (runKeyspace c p ks).2 k = ks k := by
  refine Program.run_invariant hp (I := fun ks' : Keyspace F => ks' k = ks k) ?_ rfl
  intro o ho ks' hks'
  cases o with
  | key k' op =>
    have hne : k ≠ k' := fun h => hk (h ▸ ho)
    exact (update_of_ne hne _ _).trans hks'
  | _ => exact ho.elim

theorem runKeyspace_congr (hp : p.Calls (EngineOp.On K)) (c : Clock) {ks ks' : Keyspace F}
    (h : ∀ k, K k → ks k = ks' k) :
    (runKeyspace c p ks).1 = (runKeyspace c p ks').1 ∧
      ∀ k, K k → (runKeyspace c p ks).2 k = (runKeyspace c p ks').2 k := by
  refine Program.run_simulates hp (R := fun s t : Keyspace F => ∀ k, K k → s k = t k) ?_ h
  intro o ho s t hst
  cases o with
  | key k' op =>
    refine ⟨congrArg (fun x => (op.onSlot c x).1) (hst k' ho), fun k hk => ?_⟩
    by_cases hkk : k = k'
    · subst hkk
      simp only [EngineOp.onKeyspace, update_self, hst k ho]
    · simp only [EngineOp.onKeyspace, update_of_ne hkk, hst k hk]
  | _ => exact ho.elim

end RocketMem
