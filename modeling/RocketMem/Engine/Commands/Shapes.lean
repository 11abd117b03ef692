import RocketMem.Engine.Commands.Collections
import RocketMem.Engine.PlainProgram

namespace RocketMem

open Function

variable {F : Type} [F64 F] {R : Type} {env : Env} {keys : List Bytes}

def Refused (r : EngineResult R) : Prop := ∃ e, r = .error e

theorem not_refused_ok (a : R) : ¬ Refused (.ok a : EngineResult R) := fun ⟨_, h⟩ => nomatch h

def Idle (r : EngineResult (Option R)) : Prop := Refused r ∨ r = .ok none

theorem not_idle_some (a : R) : ¬ Idle (.ok (some a) : EngineResult (Option R)) := by
  rintro (⟨_, h⟩ | h) <;> cases h

theorem PlainTotal.thenOk {α : Type} {p : EngineProgram F α}
    (hp : PlainTotal keys p) (f : α → R) :
    PlainAtomic keys Refused (p >>= fun a => (pure (.ok (f a)) : EngineProgram F (EngineResult R))) :=
  (hp.atomic fun _ => not_false).map fun a h => not_refused_ok (f a) h

def Honest (f : Value F → EngineResult R × Value F × Int) : Prop :=
  ∀ v, Refused (f v).1 → (f v).2.1 = v

theorem Variant.edit_honest {T : Type} (w : Variant F T) {f : T → EngineResult R × T × Int}
    (hf : ∀ x, Refused (f x).1 → (f x).2.1 = x) : Honest (w.edit f) := by
  intro v hv
  unfold edit at hv ⊢
  split at hv
  · next x hx => exact (congrArg w.put (hf x hv)).trans (w.put_of_get v x hx)
  · rfl

theorem Variant.edit_honest_ok {T : Type} (w : Variant F T) {f : T → EngineResult R × T × Int}
    (hf : ∀ x, ∃ r, (f x).1 = .ok r) : Honest (w.edit f) := by
  refine w.edit_honest fun x hx => ?_
  obtain ⟨r, hr⟩ := hf x
  rw [hr] at hx
  exact absurd hx (not_refused_ok r)

theorem hash_insert_nonempty (m : HashMap Bytes Bytes) (field val : Bytes) :
    (Value.hash (m.insert field val) : Value F).isEmptyCollection = false := by
  simp only [Value.isEmptyCollection, decide_eq_false_iff_not, Finset.card_eq_zero]
  exact Finset.ne_empty_of_mem (Finmap.mem_keys.mpr ((Finmap.mem_insert).mpr (.inl rfl)))

theorem list_nonempty {l : List Bytes} (h : l ≠ []) :
    (Value.list l : Value F).isEmptyCollection = false := by
  simpa [Value.isEmptyCollection] using h

theorem set_nonempty {s : Finset Bytes} (h : s ≠ ∅) :
    (Value.set s : Value F).isEmptyCollection = false := by
  simpa [Value.isEmptyCollection] using h

theorem sortedSet_insert_nonempty (z : SortedSet F) (member : Bytes) (score : F) :
    (Value.sortedSet (z.insert member score)).isEmptyCollection = false := by
  simp only [Value.isEmptyCollection, SortedSet.isEmpty, SortedSet.len, decide_eq_false_iff_not,
    Finset.card_eq_zero]
  exact Finset.ne_empty_of_mem (Finmap.mem_keys.mpr ((Finmap.mem_insert).mpr (.inl rfl)))

theorem Engine.perform_calls {key : Bytes} (hk : key ∈ keys) {op : KeyOp F}
    (hop : op.IsPlain) : (perform key op).Calls (EngineOp.PlainOn (· ∈ keys)) :=
  .perform ⟨hk, hop⟩

/-! With no memory ceiling nothing is evicted, so a write is the one store operation it asks for. -/

section

variable (hmem : env.maxmemory = none) {keys : List Bytes} {key : Bytes}

include hmem

theorem Engine.maybeEvict_unlimited : (maybeEvict env : EngineProgram F Unit) = .ret () := by
  rw [maybeEvict, hmem]
  rfl

theorem Engine.set_unlimited (key : Bytes) (value : Value F) :
    set env key value = perform key (.set value) := by
  rw [set, maybeEvict_unlimited hmem]
  exact Program.bind_ret _

theorem Engine.withMutDelta_unlimited (key : Bytes) (absent : R)
    (f : Value F → R × Value F × Int) :
    withMutDelta env key absent f =
      (fun old => old.elim absent fun v => (f v).1) <$>
        perform key (.withMutDelta fun v => (f v).2) := by
  rw [withMutDelta, maybeEvict_unlimited hmem, ← bind_pure_comp]
  congr 1
  funext old
  cases old <;> rfl

def Slot.edit (s : Slot F) (f : Value F → Value F) : Slot F :=
  s.bind fun e => if (f e.1).isEmptyCollection then none else some (f e.1, e.2)

omit hmem in
@[simp] theorem Slot.edit_none (f : Value F → Value F) : edit (none : Slot F) f = none := rfl

omit hmem in
theorem Slot.edit_some (v : Value F) (d : Option Nat) (f : Value F → Value F) :
    edit (some (v, d)) f = if (f v).isEmptyCollection then none else some (f v, d) := rfl

omit hmem in
theorem Slot.edit_same {c : Clock} {s : Slot F} (hs : Slot.Sound c s) {f : Value F → Value F}
    (hf : ∀ v d, s = some (v, d) → f v = v) : s.edit f = s := by
  cases s with
  | none => rfl
  | some e =>
    obtain ⟨v, d⟩ := e
    rw [edit_some, hf v d rfl, (hs v d rfl).1]
    rfl

theorem runKeyspace_withMutDelta (c : Clock) (key : Bytes) (absent : R)
    (f : Value F → R × Value F × Int) (ks : Keyspace F) :
    runKeyspace c (Engine.withMutDelta env key absent f) ks =
      (some ((ks key).elim absent fun e => (f e.1).1),
        update ks key ((ks key).edit fun v => (f v).2.1)) := by
  rw [Engine.withMutDelta_unlimited hmem, runKeyspace_map, runKeyspace_perform]
  cases hk : ks key <;> rfl

theorem Engine.withMutDelta_calls (hk : key ∈ keys) (absent : R)
    (f : Value F → R × Value F × Int) :
    (withMutDelta env key absent f).Calls (EngineOp.PlainOn (· ∈ keys)) := by
  rw [withMutDelta_unlimited hmem]
  refine Program.Calls.map (perform_calls hk ?_) _
  exact trivial

theorem Engine.set_calls (hk : key ∈ keys) {value : Value F}
    (hv : value.isEmptyCollection = false) :
    (set env key value).Calls (EngineOp.PlainOn (· ∈ keys)) := by
  rw [set_unlimited hmem]
  exact .perform ⟨hk, hv⟩

theorem Engine.set_total (hk : key ∈ keys) {value : Value F}
    (hv : value.isEmptyCollection = false) : PlainTotal keys (set env key value) := by
  rw [set_unlimited hmem]
  exact .perform hk hv

theorem inPlace_atomic (hk : key ∈ keys)
    (absent : EngineResult R) {f : Value F → EngineResult R × Value F × Int} (hf : Honest f) :
    PlainAtomic keys Refused (Engine.withMutDelta env key absent f) where
  calls := Engine.withMutDelta_calls hmem hk absent f
  unchanged c ks hks hfail := by
    rw [runKeyspace_withMutDelta hmem] at hfail ⊢
    have hsame : (ks key).edit (fun v => (f v).2.1) = ks key := by
      refine Slot.edit_same (hks key) fun v d hv => hf v (hfail _ ?_)
      rw [hv]
      rfl
    simp only [hsame, update_eq_self]

theorem runKeyspace_upsert (c : Clock) (key : Bytes) (f : Value F → EngineResult R × Value F × Int)
    (reply : R) (fresh : Option (Value F)) (ks : Keyspace F) :
    runKeyspace c (upsert env key f reply fresh) ks =
      match ks key with
      | none => (some (.ok reply), update ks key (fresh.map fun v => (v, none)))
      | some (v, d) =>
        (some (f v).1, update ks key (Slot.edit (some (v, d)) fun v => (f v).2.1)) := by
  rw [upsert, runKeyspace_bind, runKeyspace_withMutDelta hmem]
  cases hk : ks key with
  | none =>
    cases fresh with
    | none => rfl
    | some value =>
      simp only [Option.elim_none, Engine.set_unlimited hmem]
      refine (runKeyspace_perform_bind c key (.set value)
        (fun _ => (pure (Except.ok reply) : EngineProgram F (EngineResult R))) _).trans ?_
      simp [KeyOp.onSlot]
  | some e =>
    simp only [Option.elim_some]
    cases (f e.1).1 <;> rfl

/-- Most writes edit the value that is there or set a fresh one. -/
theorem upsert_atomic (hk : key ∈ keys)
    {f : Value F → EngineResult R × Value F × Int} (hf : Honest f) (reply : R)
    {fresh : Option (Value F)} (hfresh : ∀ v ∈ fresh, v.isEmptyCollection = false) :
    PlainAtomic keys Refused (upsert env key f reply fresh) where
  calls := by
    refine (Engine.withMutDelta_calls hmem hk _ _).bind fun existed => ?_
    split
    · exact .ret _
    · exact .ret _
    · exact .ret _
    · next value => exact (Engine.set_calls hmem hk (hfresh value rfl)).bind fun _ => .ret _
  unchanged c ks hks hfail := by
    rw [runKeyspace_upsert hmem] at hfail ⊢
    cases hslot : ks key with
    | none =>
      rw [hslot] at hfail
      exact absurd (hfail _ rfl) (not_refused_ok reply)
    | some e =>
      obtain ⟨v, d⟩ := e
      rw [hslot] at hfail
      have hsame : Slot.edit (some (v, d)) (fun v => (f v).2.1) = ks key := by
        rw [← hslot]
        refine Slot.edit_same (hks key) fun v' d' hv => hf v' (hfail _ ?_)
        rw [hslot] at hv
        cases hv
        rfl
      simp only [hsame, update_eq_self]

end

theorem Engine.del_total {key : Bytes} (hk : key ∈ keys) : PlainTotal (F := F) keys (del key) :=
  .perform hk trivial

theorem Engine.persist_total {key : Bytes} (hk : key ∈ keys) :
    PlainTotal (F := F) keys (persist key) :=
  .perform hk trivial

variable {keys : List Bytes} {key : Bytes}

theorem Engine.get_looks (hk : key ∈ keys) :
    (get key : EngineProgram F _).Calls (EngineOp.LooksAt (· ∈ keys)) :=
  .perform ⟨hk, trivial⟩

theorem Engine.withRef_looks (hk : key ∈ keys) :
    (withRef key : EngineProgram F _).Calls (EngineOp.LooksAt (· ∈ keys)) :=
  .perform ⟨hk, trivial⟩

end RocketMem
