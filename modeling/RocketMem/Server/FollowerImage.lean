import RocketMem.Server.ExecLocks
import RocketMem.Server.Superseded

namespace RocketMem

open List Option Function Discipline.Triple

variable {F : Type} [F64 F]

/-- Every image that has been captured is the keyspace of a moment between two steps. -/
def Node.ImagesWhole (s : Node F) : Prop :=
  ∀ env entries, (env, entries) ∈ s.steps.captures →
    ∃ st ∈ s.steps.moments, entries = st.snapshotEntries env

structure ImageInv (t : Nat) (s : Node F) : Prop where
  whole : s.ImagesWhole
  level : s.steps.loading = true ∨ (∀ j, s.guards j = some t) ∨ s.store ∈ s.steps.moments

structure ImageRely (t i : Nat) (s s' : Node F) : Prop where
  guards : ∀ j, s.guards j = some i ↔ s'.guards j = some i
  moments : ∀ st ∈ s.steps.moments, st ∈ s'.steps.moments
  store : i = t ∨ (s.steps.loading = false ∧ ∀ j, s.guards j = some i) →
    s'.store = s.store ∧ s'.steps.loading = s.steps.loading

theorem ImageRely.trans {t i : Nat} {s s' s'' : Node F} (h : ImageRely t i s s')
    (h' : ImageRely t i s' s'') : ImageRely t i s s'' where
  guards j := (h.guards j).trans (h'.guards j)
  moments st hst := h'.moments st (h.moments st hst)
  store hi := by
    obtain ⟨hstore, hloading⟩ := h.store hi
    have hi' : i = t ∨ (s'.steps.loading = false ∧ ∀ j, s'.guards j = some i) :=
      hi.imp id fun hheld => ⟨hloading.trans hheld.1, fun j => (h.guards j).mp (hheld.2 j)⟩
    obtain ⟨hstore', hloading'⟩ := h'.store hi'
    exact ⟨hstore'.trans hstore, hloading'.trans hloading⟩

def images (F : Type) [F64 F] (t : Nat) : Discipline (ServerOp F) (Node F) where
  inv := ImageInv t
  rely := ImageRely t
  asserts _ _ _ := True
  absent _ _ := True
  rely_refl _ _ := ⟨fun _ => Iff.rfl, fun _ h => h, fun _ => ⟨rfl, rfl⟩⟩
  rely_trans h h' := h.trans h'
  absent_stable _ _ _ := trivial

section

variable {t i : Nat} {s s' : Node F} {cfg : Settings} {L : Finset (Fin shardCount)}

theorem ImageInv.storeless (hinv : ImageInv t s) (hsteps : s'.steps = s.steps)
    (hlevel : s'.steps.loading = true ∨ (∀ j, s'.guards j = some t) ∨ s'.store ∈ s'.steps.moments) :
    ImageInv t s' := by
  refine ⟨?_, hlevel⟩
  unfold Node.ImagesWhole
  rw [hsteps]
  exact hinv.whole

end

section

variable {t i : Nat} {cfg : Settings} {L : Finset (Fin shardCount)}

theorem holding_stable : (images F t).Stable i (Holding i L) :=
  fun _ _ hrely _ h j => (hrely.guards j).symm.trans (h j)

structure Walking (i : Nat) (st : Store F) (s : Node F) : Prop where
  held : Holding i Finset.univ s
  loading : s.steps.loading = false
  store : s.store = st
  moment : st ∈ s.steps.moments

theorem Walking.stable {st : Store F} : (images F t).Stable i (Walking i st) := by
  intro s s' hrely hinv h
  obtain ⟨hstore, hloading⟩ :=
    hrely.store (.inr ⟨h.loading, fun j => (h.held j).mpr (Finset.mem_univ j)⟩)
  exact ⟨holding_stable s s' hrely hinv h.held, hloading.trans h.loading, hstore.trans h.store,
    hrely.moments st h.moment⟩

theorem Walking.step {st : Store F} {x : Option Fault} {env : Env} {j : Fin shardCount}
    {s s' : Node F} {r : List (SnapshotEntry F)}
    (hx : (server F cfg).exec i x (.shardEntries env j) s = some (r, s')) (h : Walking i st s) :
    r = (st.shards j).entries env ∧ Walking i st s' := by
  obtain ⟨rfl, rfl⟩ := Prod.mk.inj (some.inj hx)
  rw [h.store]
  exact ⟨rfl, h⟩

end

section

variable {t : Nat} {cfg : Settings} {L : Finset (Fin shardCount)}

structure Between (t : Nat) (L : Finset (Fin shardCount)) (s : Node F) : Prop where
  held : Holding t L s
  loading : s.steps.loading = false
  moment : s.store ∈ s.steps.moments

theorem Between.stable : (images F t).Stable t (Between t L) := by
  intro s s' hrely hinv h
  obtain ⟨hstore, hloading⟩ := hrely.store (.inl rfl)
  refine ⟨holding_stable s s' hrely hinv h.held, hloading.trans h.loading, ?_⟩
  rw [hstore]
  exact hrely.moments _ h.moment

def Within (t : Nat) (L : Finset (Fin shardCount)) (s : Node F) : Prop :=
  Holding t L s ∧ (s.steps.loading = true ∨ L = Finset.univ)

theorem Within.stable : (images F t).Stable t (Within t L) := by
  intro s s' hrely hinv h
  refine ⟨holding_stable s s' hrely hinv h.1, h.2.imp_left fun hloading => ?_⟩
  exact (hrely.store (.inl rfl)).2.trans hloading

theorem Within.alone {s : Node F} (h : Within t L s) {j : Nat} (hj : j ≠ t)
    (hrelies : j = t ∨ (s.steps.loading = false ∧ ∀ k, s.guards k = some j)) : False := by
  obtain ⟨hloading, hheld⟩ := hrelies.resolve_left hj
  rcases h.2 with hbusy | rfl
  · rw [hloading] at hbusy
    cases hbusy
  · have hmine := (h.1 firstShard).mpr (Finset.mem_univ _)
    exact hj (some.inj ((hheld firstShard).symm.trans hmine))

def ServerOp.Mutates : ServerOp F → Prop
  | engine _ _ | clearShard _ => True
  | _ => False

theorem ServerOp.Mutates.exec {x : Option Fault} {o : ServerOp F} (h : o.Mutates) {r : o.Ret}
    {s s' : Node F} (hx : (server F cfg).exec t x o s = some (r, s')) :
    s'.guards = s.guards ∧ s'.steps = s.steps := by
  have hs' := congrArg (Option.map Prod.snd) hx
  cases o with
  | engine | clearShard =>
    obtain rfl := some.inj hs'
    exact ⟨rfl, rfl⟩
  | _ => exact h.elim

end

section

variable {cfg : Settings} {node : Node F} {roles : Nat → Option Role} {final : ServerConfig F}
  {t : Nat}

end

def clearing (js : List (Fin shardCount)) : ServerProgram Score (Option Nat) := do
  do
    js.forM fun j => perform (.clearShard j)
    [].forM (loadOne Env.still)
  perform (.note .stepped)
  return some 0

theorem ServerOp.Requested.loading {cfg : Settings} {i : Nat} {x : Option Fault} {o : ServerOp F}
    (h : o.Requested) {r : o.Ret} {s s' : Node F}
    (hx : (server F cfg).exec i x o s = some (r, s')) : s'.steps.loading = s.steps.loading := by
  have hs' := congrArg (Option.map Prod.snd) hx
  cases o with
  | clearShard => exact h.elim
  | engine =>
    obtain rfl := some.inj hs'
    rfl
  | note n =>
    cases n with
    | captured =>
      obtain rfl := some.inj hs'
      rfl
    | _ => exact h.elim
  | _ => rw [(ServerOp.Storeless.exec hx (by trivial)).2]

section

variable (cfg : Settings) (permits : Nat → Option Fault → ServerOp Score →
  Node Score → Prop) (hpermits : ∀ o s, permits 1 none o s)

include hpermits

end

end RocketMem
