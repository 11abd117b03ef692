import RocketMem.Engine.Commands.Atomicity

namespace RocketMem

open Option Function

variable {F : Type} [F64 F] {α : Type}

def Slot.Doomed (T : Nat) (s : Slot F) : Prop := ∃ v t, s = some (v, some t) ∧ t ≤ T

def Slot.survive (T : Nat) (s : Slot F) : Slot F := s.filter fun e => e.2.all fun t => T < t

def Keyspace.survive (T : Nat) (ks : Keyspace F) : Keyspace F := fun k => (ks k).survive T

namespace Slot

@[simp] theorem survive_none (T : Nat) : survive T (none : Slot F) = none := rfl

@[simp] theorem survive_forever (T : Nat) (v : Value F) :
    survive T (some (v, none)) = some (v, none) := rfl

theorem survive_dated (T : Nat) (v : Value F) (t : Nat) :
    survive T (some (v, some t)) = if t ≤ T then none else some (v, some t) := by
  by_cases h : t ≤ T
  · simp [survive, Option.filter, h]
  · simp [survive, Option.filter, h, not_le.mp h]

theorem survive_of_not_doomed {T : Nat} {s : Slot F} (h : ¬ s.Doomed T) : s.survive T = s := by
  rcases s with _ | ⟨v, _ | t⟩
  · rfl
  · rfl
  · have hlater : ¬ t ≤ T := fun hle => h ⟨v, t, rfl, hle⟩
    rw [survive_dated, if_neg hlater]

theorem survive_of_doomed {T : Nat} {s : Slot F} (h : s.Doomed T) : s.survive T = none := by
  obtain ⟨v, t, rfl, hle⟩ := h
  rw [survive_dated, if_pos hle]

theorem survive_sound {c c' : Clock} (hboot : c'.boot = c.boot) {s : Slot F}
    (hs : Slot.Sound c s) : Slot.Sound c' (s.survive c'.wall) := by
  intro v d hv
  by_cases hdoomed : s.Doomed c'.wall
  · rw [survive_of_doomed hdoomed] at hv
    cases hv
  · rw [survive_of_not_doomed hdoomed] at hv
    refine ⟨(hs v d hv).1, fun t ht => ⟨?_, ?_⟩⟩
    · by_contra hle
      rw [mem_def.mp ht] at hv
      exact hdoomed ⟨v, t, hv, not_lt.mp hle⟩
    · rw [hboot]
      exact ((hs v d hv).2 t ht).2

theorem survive_edit (T : Nat) (s : Slot F) (f : Value F → Value F) :
    (s.edit f).survive T = (s.survive T).edit f := by
  rcases s with _ | ⟨v, _ | t⟩
  · rfl
  · rw [survive_forever, edit_some]
    split <;> rfl
  · rw [survive_dated, edit_some]
    by_cases hle : t ≤ T
    · rw [if_pos hle, edit_none]
      split
      · rfl
      · rw [survive_dated, if_pos hle]
    · rw [if_neg hle, edit_some]
      split
      · rfl
      · rw [survive_dated, if_neg hle]

end Slot

namespace Keyspace

variable {ks : Keyspace F}

theorem survive_update (T : Nat) (ks : Keyspace F) (k : Bytes) (s : Slot F) :
    Keyspace.survive T (update ks k s) = update (ks.survive T) k (s.survive T) := by
  funext k'
  by_cases hk : k' = k
  · subst hk
    simp only [survive, update_self]
  · simp only [survive, update_of_ne hk]

theorem survive_sound {c c' : Clock} (hboot : c'.boot = c.boot)
    (h : ks.Sound c) : (ks.survive c'.wall).Sound c' :=
  fun k => Slot.survive_sound hboot (h k)

theorem Sound.not_doomed {c : Clock} (h : ks.Sound c) (k : Bytes) : ¬ (ks k).Doomed c.wall := by
  rintro ⟨v, t, hv, hle⟩
  exact absurd ((h k v (some t) hv).2 t rfl).1 (not_lt.mpr hle)

theorem Sound.survive_self {c : Clock} (h : ks.Sound c) : ks.survive c.wall = ks :=
  funext fun k => Slot.survive_of_not_doomed (h.not_doomed k)

theorem update_missing {k : Bytes} (h : ks k = none) : update ks k none = ks := by
  rw [← h, update_eq_self]

end Keyspace

theorem Store.live_later {c c' : Clock} (hboot : c'.boot = c.boot) (hmono : c.mono ≤ c'.mono)
    (st : Store F) : st.live c' = (st.live c).survive c'.wall := by
  funext k
  simp only [Store.live, Keyspace.survive, Shard.slot]
  rcases (st.shardFor k).map.lookup k with _ | ⟨v, _ | deadline, tick⟩
  · rfl
  · rfl
  · have hiff : c.boot + deadline ≤ c'.wall ↔ deadline ≤ c'.mono := by
      unfold Clock.wall
      omega
    simp only [bind_some, Entry.slot, Entry.isExpired, decide_eq_true_eq, map_some]
    by_cases hnow : deadline ≤ c.mono
    · have hlater : deadline ≤ c'.mono := hnow.trans hmono
      rw [if_pos hnow, if_pos hlater, Slot.survive_none]
    · simp only [if_neg hnow, Slot.survive_dated, hiff, hboot]

section

variable {K : Bytes → Prop} {p : EngineProgram F α}

theorem KeyOp.IsPlain.not_doomed {op : KeyOp F} (h : op.IsPlain) (c : Clock) {T : Nat}
    {s : Slot F} (hs : ¬ s.Doomed T) : ¬ Slot.Doomed T (op.onSlot c s).2 := by
  cases op with
  | get | existsKey | withRef => exact hs
  | set value =>
    rintro ⟨v, t, hv, -⟩
    cases hv
  | del =>
    rintro ⟨v, t, hv, -⟩
    cases hv
  | withMutDelta f =>
    rintro ⟨v, t, hv, hle⟩
    rcases s with _ | ⟨v', d⟩
    · cases hv
    · simp only [onSlot, bind_some] at hv
      split at hv
      · cases hv
      · cases hv
        exact hs ⟨v', t, rfl, hle⟩
  | persist =>
    rintro ⟨v, t, hv, -⟩
    rcases s with _ | ⟨v', d⟩ <;> cases hv
  | expireAt | ttl => exact h.elim

theorem runKeyspace_survive (hp : p.Calls (EngineOp.PlainOn K)) (c c' : Clock) {T : Nat}
    {ks : Keyspace F} (hks : ∀ k, K k → ¬ (ks k).Doomed T) :
    runKeyspace c' p (ks.survive T) =
      ((runKeyspace c p ks).1, (runKeyspace c p ks).2.survive T) := by
  have step : ∀ o, EngineOp.PlainOn K o → ∀ s t : Keyspace F,
      (t = s.survive T ∧ ∀ k, K k → ¬ (s k).Doomed T) →
        (o.onKeyspace c s).1 = (o.onKeyspace c' t).1 ∧
          ((o.onKeyspace c' t).2 = (o.onKeyspace c s).2.survive T ∧
            ∀ k, K k → ¬ ((o.onKeyspace c s).2 k).Doomed T) := by
    rintro o ho s _ ⟨rfl, hs⟩
    cases o with
    | key k op =>
      have hslot : s.survive T k = s k := Slot.survive_of_not_doomed (hs k ho.1)
      have hafter := ho.2.not_doomed c (hs k ho.1)
      simp only [EngineOp.onKeyspace, hslot, ho.2.onSlot_eq c c', true_and]
      rw [ho.2.onSlot_eq c c'] at hafter
      refine ⟨?_, fun k' hk' => ?_⟩
      · rw [Keyspace.survive_update, Slot.survive_of_not_doomed hafter]
      · by_cases hkk : k' = k
        · subst hkk
          rwa [update_self]
        · rw [update_of_ne hkk]
          exact hs k' hk'
    | _ => exact ho.elim
  have h := Program.run_simulates hp step (s := ks) ⟨rfl, hks⟩
  exact Prod.ext h.1.symm h.2.1

end

/-- A program that does to what is left at `T` what it does now, unless it fails now. The keys in
`sensitive` have to live on to `T`. -/
def Ages (sensitive : List Bytes) (bad : α → Prop) (p : EngineProgram F α) : Prop :=
  ∀ (c c' : Clock) (T : Nat) (ks : Keyspace F), (∀ k ∈ sensitive, ¬ (ks k).Doomed T) →
    ¬ Failed bad (runKeyspace c p ks).1 →
      (runKeyspace c' p (ks.survive T)).2 = (runKeyspace c p ks).2.survive T

namespace Ages

variable {β : Type} {sensitive : List Bytes} {bad : α → Prop} {bad' : β → Prop} {p : EngineProgram F α}

theorem ret (a : α) : Ages sensitive bad (Program.ret a : EngineProgram F α) :=
  fun _ _ _ _ _ _ => rfl

theorem of_calls (hp : p.Calls (EngineOp.PlainOn (· ∈ sensitive))) : Ages sensitive bad p :=
  fun c c' _ _ hlive _ => congrArg Prod.snd (runKeyspace_survive hp c c' hlive)

theorem map (hp : Ages sensitive bad p) {f : α → β}
    (hf : ∀ a, bad a → bad' (f a)) : Ages sensitive bad' (f <$> p) := by
  intro c c' T ks hlive hdone
  rw [runKeyspace_map] at hdone ⊢
  rw [runKeyspace_map]
  refine hp c c' T ks hlive fun hfail => hdone fun b hb => ?_
  obtain ⟨a, ha, rfl⟩ := map_eq_some_iff.mp hb
  exact hf a (hfail a ha)

theorem mono {sensitive' : List Bytes} (hp : Ages sensitive bad p)
    (hsub : sensitive ⊆ sensitive') : Ages sensitive' bad p :=
  fun c c' T ks hlive hdone => hp c c' T ks (fun k hk => hlive k (hsub hk)) hdone

theorem bind_looks {f : α → EngineProgram F β}
    (hp : p.Calls (EngineOp.LooksAt (· ∈ sensitive))) (hf : ∀ a, Ages sensitive bad' (f a)) :
    Ages sensitive bad' (p >>= f) := by
  intro c c' T ks hlive hdone
  have hplain : p.Calls (EngineOp.PlainOn (· ∈ sensitive)) :=
    hp.mono fun _ => EngineOp.LooksAt.plainOn
  have hlater := runKeyspace_survive hplain c c' hlive
  have hsame := runKeyspace_looks hp c ks
  rw [runKeyspace_bind] at hdone ⊢
  rw [runKeyspace_bind, hlater]
  rcases hrun : runKeyspace c p ks with ⟨_ | a, ks'⟩
  · rfl
  · rw [hrun] at hsame hdone
    obtain rfl : ks' = ks := hsame
    exact hf a c c' T _ hlive hdone

theorem of_effect (g : Keyspace F → Keyspace F)
    (hp : ∀ c ks, (runKeyspace c p ks).2 = g ks)
    (hg : ∀ T ks, g (ks.survive T) = (g ks).survive T) : Ages sensitive bad p := by
  intro c c' T ks _ _
  rw [hp, hp, hg]

end Ages

variable {env : Env} {R : Type} (hmem : env.maxmemory = none)

include hmem

theorem inPlace_ages (key : Bytes) (absent : R) (f : Value F → R × Value F × Int)
    {bad : R → Prop} : Ages [] bad (Engine.withMutDelta env key absent f) := by
  refine .of_effect (fun ks => update ks key ((ks key).edit fun v => (f v).2.1))
    (fun c ks => congrArg Prod.snd (runKeyspace_withMutDelta hmem c key absent f ks)) ?_
  intro T ks
  rw [Keyspace.survive_update, Slot.survive_edit]
  rfl

theorem runKeyspace_engineSet (c : Clock) (key : Bytes) (value : Value F) (ks : Keyspace F) :
    runKeyspace c (Engine.set env key value) ks =
      (some (), update ks key (some (value, none))) := by
  rw [Engine.set_unlimited hmem]
  rfl

def Keyspace.store (ks : Keyspace F) (pairs : List (Bytes × Bytes)) : Keyspace F :=
  pairs.foldl (fun ks p => update ks p.1 (some (.string p.2, none))) ks

omit hmem in
theorem Keyspace.survive_store (T : Nat) (pairs : List (Bytes × Bytes)) (ks : Keyspace F) :
    (ks.survive T).store pairs = (ks.store pairs).survive T := by
  induction pairs generalizing ks with
  | nil => rfl
  | cons p pairs ih =>
    have hone : update (ks.survive T) p.1 (some (.string p.2, none)) =
        Keyspace.survive T (update ks p.1 (some (.string p.2, none))) := by
      rw [survive_update, Slot.survive_forever]
    calc (ks.survive T).store (p :: pairs)
        = store (update (ks.survive T) p.1 (some (.string p.2, none))) pairs := rfl
      _ = (store (update ks p.1 (some (.string p.2, none))) pairs).survive T := by
          rw [hone, ih]
      _ = (ks.store (p :: pairs)).survive T := rfl

theorem runKeyspace_mset (c : Clock) (pairs : List (Bytes × Bytes)) (ks : Keyspace F) :
    runKeyspace c (mset env pairs) ks = (some (), ks.store pairs) := by
  induction pairs generalizing ks with
  | nil => rfl
  | cons p pairs ih =>
    rw [mset, runKeyspace_bind, runKeyspace_engineSet hmem]
    exact ih _

theorem mset_ages (pairs : List (Bytes × Bytes)) :
    Ages (F := F) [] (fun _ => False) (mset env pairs) :=
  .of_effect (fun ks => ks.store pairs)
    (fun c ks => congrArg Prod.snd (runKeyspace_mset hmem c pairs ks))
    fun T ks => Keyspace.survive_store T pairs ks

theorem storeOrDelete_ages (dest : Bytes) (result : Finset Bytes) :
    Ages (F := F) [] (fun _ => False) (storeOrDelete env dest result) := by
  refine .of_effect (fun ks => update ks dest
    (if result = ∅ then none else some (.set result, none))) (fun c ks => ?_) fun T ks => ?_
  · unfold storeOrDelete
    split
    · rfl
    · rw [runKeyspace_bind, runKeyspace_engineSet hmem]
      rfl
  · rw [Keyspace.survive_update]
    split <;> rfl

theorem storeResult_ages (dest : Bytes) {sources : List Bytes}
    {result : EngineProgram F (EngineResult (Finset Bytes))}
    (hr : result.Calls (EngineOp.LooksAt (· ∈ sources))) :
    Ages sources Refused (storeResult env dest result) := by
  refine .bind_looks hr fun r => ?_
  split
  · exact .ret _
  · exact ((storeOrDelete_ages hmem dest _).mono (List.nil_subset _)).map fun _ h => h.elim

theorem getset_ages (key val : Bytes) : Ages (F := F) [] Refused (getset env key val) := by
  intro c c' T ks _ hdone
  have hwrites (c : Clock) (ks : Keyspace F)
      (hstring : ∀ v d, ks key = some (v, d) → ∃ old, v = .string old) :
      (runKeyspace c (getset env key val) ks).2 = update ks key (some (.string val, none)) := by
    rw [getset, runKeyspace_bind, getString, runKeyspace_bind, runKeyspace_get]
    rcases hslot : ks key with _ | ⟨v, d⟩
    · simp only [map_none, Engine.set_unlimited hmem]
      rfl
    · obtain ⟨old, rfl⟩ := hstring v d hslot
      simp only [map_some, Engine.set_unlimited hmem]
      rfl
  have hnow : ∀ v d, ks key = some (v, d) → ∃ old, v = .string old := by
    intro v d hslot
    rw [getset, runKeyspace_bind, getString, runKeyspace_bind, runKeyspace_get, hslot] at hdone
    cases v with
    | string old => exact ⟨old, rfl⟩
    | _ => exact absurd (fun r hr => by cases hr; exact ⟨_, rfl⟩) hdone
  have hlater : ∀ v d, ks.survive T key = some (v, d) → ∃ old, v = .string old := by
    intro v d hslot
    exact hnow v d (filter_eq_some_iff.mp hslot).1
  rw [hwrites c' _ hlater, hwrites c _ hnow, Keyspace.survive_update, Slot.survive_forever]

end RocketMem
