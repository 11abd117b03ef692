import RocketMem.Engine.Keyspace

namespace RocketMem

open Function Program

variable {F : Type} [F64 F] {α β : Type} {op : KeyOp F}

/-- A slot a running server can hold: no empty collection, and a deadline that lies ahead and is
an `Instant` the monotonic clock can reach. -/
def Slot.Sound (c : Clock) (s : Slot F) : Prop :=
  ∀ v d, s = some (v, d) →
    v.isEmptyCollection = false ∧ ∀ t ∈ d, c.wall < t ∧ (((t - c.boot) / 1000 : Nat) : Int) ≤ i64Max

def Keyspace.Sound (c : Clock) (ks : Keyspace F) : Prop := ∀ k, Slot.Sound c (ks k)

theorem Slot.sound_none (c : Clock) : Slot.Sound c (none : Slot F) := fun _ _ h => nomatch h

theorem Slot.sound_some {c : Clock} {v : Value F} {d : Option Nat} :
    Slot.Sound c (some (v, d)) ↔
      v.isEmptyCollection = false ∧
        ∀ t ∈ d, c.wall < t ∧ (((t - c.boot) / 1000 : Nat) : Int) ≤ i64Max := by
  constructor
  · exact fun h => h v d rfl
  · rintro h _ _ ⟨⟩
    exact h

theorem Keyspace.sound_update {c : Clock} {ks : Keyspace F} (h : ks.Sound c) (k : Bytes)
    {s : Slot F} (hs : Slot.Sound c s) : Keyspace.Sound c (update ks k s) := by
  intro k'
  by_cases hk : k' = k
  · subst hk
    rwa [update_self]
  · rw [update_of_ne hk]
    exact h k'

theorem Keyspace.sound_empty (c : Clock) : Keyspace.Sound c (fun _ => none : Keyspace F) :=
  fun _ => Slot.sound_none c

section

variable (c : Clock) (k : Bytes)

@[simp] theorem runKeyspace_ret (a : α) (ks : Keyspace F) :
    runKeyspace c (ret a) ks = (some a, ks) := rfl

@[simp] theorem runKeyspace_halt (ks : Keyspace F) :
    runKeyspace c (halt : EngineProgram F α) ks = (none, ks) := rfl

@[simp] theorem runKeyspace_perform (op : KeyOp F) (ks : Keyspace F) :
    runKeyspace c (Engine.perform k op) ks =
      (some (op.onSlot c (ks k)).1, update ks k (op.onSlot c (ks k)).2) := rfl

@[simp] theorem runKeyspace_get (ks : Keyspace F) :
    runKeyspace c (Engine.get k) ks = (some ((ks k).map Prod.fst), ks) :=
  congrArg (Prod.mk _) (update_eq_self k ks)

@[simp] theorem runKeyspace_withRef (ks : Keyspace F) :
    runKeyspace c (Engine.withRef k) ks = (some ((ks k).map Prod.fst), ks) :=
  congrArg (Prod.mk _) (update_eq_self k ks)

@[simp] theorem runKeyspace_existsKey (ks : Keyspace F) :
    runKeyspace c (Engine.existsKey k) ks = (some (ks k).isSome, ks) :=
  congrArg (Prod.mk _) (update_eq_self k ks)

@[simp] theorem runKeyspace_ttl (ks : Keyspace F) :
    runKeyspace c (Engine.ttl k) ks = (some (KeyOp.ttl.onSlot c (ks k)).1, ks) :=
  congrArg (Prod.mk _) (update_eq_self k ks)

theorem runKeyspace_bind (p : EngineProgram F α) (f : α → EngineProgram F β) (ks : Keyspace F) :
    runKeyspace c (p >>= f) ks =
      match runKeyspace c p ks with
      | (some a, ks') => runKeyspace c (f a) ks'
      | (none, ks') => (none, ks') := by
  simp only [runKeyspace, run_bind]
  rcases run (EngineOp.onKeyspace c) p ks with ⟨_ | a, ks'⟩ <;> rfl

theorem runKeyspace_perform_bind (op : KeyOp F) (f : op.Ret → EngineProgram F β)
    (ks : Keyspace F) :
    runKeyspace c (Engine.perform k op >>= f) ks =
      runKeyspace c (f (op.onSlot c (ks k)).1) (update ks k (op.onSlot c (ks k)).2) := rfl

theorem runKeyspace_map (f : α → β) (p : EngineProgram F α) (ks : Keyspace F) :
    runKeyspace c (f <$> p) ks = ((runKeyspace c p ks).1.map f, (runKeyspace c p ks).2) :=
  run_map _ f p ks

end

def KeyOp.IsLook : KeyOp F → Prop
  | get | existsKey | withRef => True
  | _ => False

def KeyOp.IsPlain : KeyOp F → Prop
  | set value => value.isEmptyCollection = false
  | expireAt _ | ttl => False
  | _ => True

theorem KeyOp.IsLook.isPlain (h : op.IsLook) : op.IsPlain := by
  cases op <;> first | exact trivial | exact h.elim

theorem KeyOp.IsLook.onSlot (h : op.IsLook) (c : Clock) (s : Slot F) : (op.onSlot c s).2 = s := by
  cases op <;> first | rfl | exact h.elim

theorem KeyOp.IsPlain.onSlot_eq (h : op.IsPlain) (c c' : Clock) (s : Slot F) :
    op.onSlot c s = op.onSlot c' s := by
  cases op <;> first | rfl | exact h.elim

theorem KeyOp.IsPlain.sound (h : op.IsPlain) {c : Clock} {s : Slot F}
    (hs : Slot.Sound c s) : Slot.Sound c (op.onSlot c s).2 := by
  cases op with
  | get | existsKey | withRef => exact hs
  | set value => exact Slot.sound_some.mpr ⟨h, fun t ht => nomatch ht⟩
  | del => exact Slot.sound_none c
  | withMutDelta f =>
    cases s with
    | none => exact hs
    | some e =>
      simp only [onSlot, Option.bind_some]
      split
      · exact Slot.sound_none c
      · next hne => exact Slot.sound_some.mpr ⟨Bool.eq_false_iff.mpr hne, (hs _ _ rfl).2⟩
  | persist =>
    cases s with
    | none => exact hs
    | some e => exact Slot.sound_some.mpr ⟨(hs _ _ rfl).1, fun t ht => nomatch ht⟩
  | expireAt | ttl => exact h.elim

def EngineOp.LooksAt (K : Bytes → Prop) : EngineOp F → Prop
  | key k op => K k ∧ op.IsLook
  | _ => False

def EngineOp.PlainOn (K : Bytes → Prop) : EngineOp F → Prop
  | key k op => K k ∧ op.IsPlain
  | _ => False

theorem EngineOp.LooksAt.plainOn {K : Bytes → Prop} {o : EngineOp F} (h : o.LooksAt K) :
    o.PlainOn K := by
  cases o with
  | key k op => exact ⟨h.1, h.2.isPlain⟩
  | _ => exact h.elim

theorem EngineOp.PlainOn.on {K : Bytes → Prop} {o : EngineOp F} (h : o.PlainOn K) : o.On K := by
  cases o with
  | key k op => exact h.1
  | _ => exact h.elim

theorem EngineOp.On.mono {K K' : Bytes → Prop} (hK : ∀ k, K k → K' k) {o : EngineOp F}
    (h : o.On K) : o.On K' := by
  cases o with
  | key k op => exact hK k h
  | _ => exact h.elim

section

variable {K : Bytes → Prop} {p : EngineProgram F α}

theorem runKeyspace_looks (hp : p.Calls (EngineOp.LooksAt K)) (c : Clock) (ks : Keyspace F) :
    (runKeyspace c p ks).2 = ks := by
  refine run_invariant hp (I := fun ks' : Keyspace F => ks' = ks) ?_ rfl
  rintro o ho _ rfl
  cases o with
  | key k op =>
    show update _ k _ = _
    rw [ho.2.onSlot, update_eq_self]
  | _ => exact ho.elim

theorem runKeyspace_plain_sound (hp : p.Calls (EngineOp.PlainOn K)) {c : Clock} {ks : Keyspace F}
    (h : ks.Sound c) : (runKeyspace c p ks).2.Sound c := by
  refine run_invariant hp (I := fun ks' : Keyspace F => ks'.Sound c) ?_ h
  intro o ho ks' hks'
  cases o with
  | key k op => exact Keyspace.sound_update hks' k (ho.2.sound (hks' k))
  | _ => exact ho.elim

end

def Failed (bad : α → Prop) (r : Option α) : Prop := ∀ a, r = some a → bad a

structure Atomic (c : Clock) (keys : List Bytes) (bad : α → Prop) (p : EngineProgram F α) :
    Prop where
  touches : p.Calls (EngineOp.On (· ∈ keys))
  sound : ∀ ks, Keyspace.Sound c ks → (runKeyspace c p ks).2.Sound c
  unchanged : ∀ ks, Keyspace.Sound c ks → Failed bad (runKeyspace c p ks).1 →
    (runKeyspace c p ks).2 = ks

structure PlainAtomic (keys : List Bytes) (bad : α → Prop) (p : EngineProgram F α) : Prop where
  calls : p.Calls (EngineOp.PlainOn (· ∈ keys))
  unchanged : ∀ c ks, Keyspace.Sound c ks → Failed bad (runKeyspace c p ks).1 →
    (runKeyspace c p ks).2 = ks

structure PlainTotal (keys : List Bytes) (p : EngineProgram F α) : Prop where
  calls : p.Calls (EngineOp.PlainOn (· ∈ keys))
  returns : ∀ c ks, Keyspace.Sound c ks → (runKeyspace c p ks).1 ≠ none

namespace Atomic

variable {c : Clock} {keys : List Bytes} {bad : α → Prop} {bad' : β → Prop}

theorem ret (a : α) : Atomic c keys bad (ret a : EngineProgram F α) :=
  ⟨.ret a, fun _ h => h, fun _ _ _ => rfl⟩

theorem halt : Atomic c keys bad (halt : EngineProgram F α) :=
  ⟨.halt, fun _ h => h, fun _ _ _ => rfl⟩

theorem map {p : EngineProgram F α} (h : Atomic c keys bad p) {f : α → β}
    (hf : ∀ a, bad' (f a) → bad a) : Atomic c keys bad' (f <$> p) where
  touches := h.touches.map f
  sound ks hks := by
    rw [runKeyspace_map]
    exact h.sound ks hks
  unchanged ks hks hfail := by
    rw [runKeyspace_map] at hfail ⊢
    refine h.unchanged ks hks fun a ha => hf a (hfail _ ?_)
    rw [ha, Option.map_some]

end Atomic

namespace PlainTotal

variable {keys : List Bytes}

theorem ret (a : α) : PlainTotal keys (ret a : EngineProgram F α) := ⟨.ret a, fun _ _ _ => nofun⟩

theorem perform {k : Bytes} (hk : k ∈ keys) {op : KeyOp F} (hop : op.IsPlain) :
    PlainTotal keys (Engine.perform k op) :=
  ⟨.perform ⟨hk, hop⟩, fun _ _ _ => nofun⟩

theorem bind {p : EngineProgram F α} {f : α → EngineProgram F β} (hp : PlainTotal keys p)
    (hf : ∀ a, PlainTotal keys (f a)) : PlainTotal keys (p >>= f) where
  calls := hp.calls.bind fun a => (hf a).calls
  returns c ks hks := by
    have hsome := hp.returns c ks hks
    have hsound := runKeyspace_plain_sound hp.calls hks
    rw [runKeyspace_bind]
    rcases hrun : runKeyspace c p ks with ⟨_ | a, ks'⟩
    · rw [hrun] at hsome
      exact absurd rfl hsome
    · rw [hrun] at hsound
      exact (hf a).returns c ks' hsound

theorem atomic {p : EngineProgram F α} (h : PlainTotal keys p) {bad : α → Prop}
    (hbad : ∀ a, ¬ bad a) : PlainAtomic keys bad p where
  calls := h.calls
  unchanged c ks hks hfail := by
    obtain ⟨a, ha⟩ := Option.ne_none_iff_exists'.mp (h.returns c ks hks)
    exact absurd (hfail a ha) (hbad a)

end PlainTotal

namespace PlainAtomic

variable {keys : List Bytes} {bad : α → Prop} {bad' : β → Prop} {p : EngineProgram F α}

theorem toAtomic (h : PlainAtomic keys bad p) (c : Clock) : Atomic c keys bad p where
  touches := h.calls.mono fun _ => EngineOp.PlainOn.on
  sound _ := runKeyspace_plain_sound h.calls
  unchanged := h.unchanged c

theorem ret (a : α) : PlainAtomic keys bad (ret a : EngineProgram F α) :=
  ⟨.ret a, fun _ _ _ _ => rfl⟩

theorem map (h : PlainAtomic keys bad p) {f : α → β}
    (hf : ∀ a, bad' (f a) → bad a) : PlainAtomic keys bad' (f <$> p) where
  calls := h.calls.map f
  unchanged c := ((h.toAtomic c).map hf).unchanged

theorem weaken {bad₂ : α → Prop} (h : PlainAtomic keys bad p)
    (hbad : ∀ a, bad₂ a → bad a) : PlainAtomic keys bad₂ p :=
  ⟨h.calls, fun c ks hks hfail => h.unchanged c ks hks fun a ha => hbad a (hfail a ha)⟩

theorem bind_looks {f : α → EngineProgram F β}
    (hp : p.Calls (EngineOp.LooksAt (· ∈ keys))) (hf : ∀ a, PlainAtomic keys bad' (f a)) :
    PlainAtomic keys bad' (p >>= f) where
  calls := (hp.mono fun _ => EngineOp.LooksAt.plainOn).bind fun a => (hf a).calls
  unchanged c ks hks hfail := by
    have hsame := runKeyspace_looks hp c ks
    rw [runKeyspace_bind] at hfail ⊢
    rcases hrun : runKeyspace c p ks with ⟨_ | a, ks'⟩ <;> rw [hrun] at hsame hfail <;> subst hsame
    · rfl
    · exact (hf a).unchanged c _ hks hfail

end PlainAtomic

end RocketMem
