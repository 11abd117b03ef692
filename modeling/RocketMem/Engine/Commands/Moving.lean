import Mathlib.Data.List.Rotate
import RocketMem.Engine.Commands.Atomicity
import RocketMem.Engine.Commands.Ranges

namespace RocketMem

open Function

variable {F : Type} [F64 F] {env : Env}

def turned : ListEnd → ListEnd → List Bytes → List Bytes
  | .left, .right, l => l.rotate 1
  | .right, .left, l => l.rotate (l.length - 1)
  | .left, .left, l | .right, .right, l => l

def Slot.ofList (l : List Bytes) (d : Option Nat) : Slot F :=
  if l = [] then none else some (.list l, d)

def Value.NotList (v : Value F) : Prop := ∀ l, v ≠ .list l

section

variable (stop : ListEnd) (x : Bytes) (rest : List Bytes)

theorem pushEnd_ne_nil : pushEnd stop x rest ≠ [] := by
  cases stop <;> simp [pushEnd]

theorem popEnd_pushEnd : popEnd stop (pushEnd stop x rest) = (some x, rest) := by
  cases stop <;> simp [popEnd, pushEnd]

theorem exists_pushEnd {l : List Bytes} (h : l ≠ []) : ∃ x rest, l = pushEnd stop x rest := by
  cases stop with
  | left =>
    obtain ⟨x, rest, rfl⟩ := List.exists_cons_of_ne_nil h
    exact ⟨x, rest, rfl⟩
  | right => exact ⟨l.getLast h, l.dropLast, (List.dropLast_append_getLast h).symm⟩

theorem turned_pushEnd (start : ListEnd) :
    turned start stop (pushEnd start x rest) = pushEnd stop x rest := by
  cases start with
  | left =>
    cases stop with
    | left => rfl
    | right => simp [turned, pushEnd]
  | right =>
    cases stop with
    | left => simp [turned, pushEnd]
    | right => rfl

end

section

variable (hmem : env.maxmemory = none) {c : Clock} {source destination : Bytes} {ks : Keyspace F}
  {start stop : ListEnd} {x : Bytes} {rest : List Bytes} {d : Option Nat}

theorem runKeyspace_lmove_refused {v : Value F} (hdest : ks destination = some (v, d))
    (hv : v.NotList) :
    runKeyspace c (lmove env source destination start stop) ks =
      (some (.error .wrongType), ks) := by
  rw [lmove, runKeyspace_bind, runKeyspace_withRef, hdest]
  cases v with
  | list l => exact absurd rfl (hv l)
  | string b => rfl
  | hash m => rfl
  | set s => rfl
  | sortedSet z => rfl

theorem runKeyspace_lmove_takes (hdest : (ks destination).TakesPush) :
    runKeyspace c (lmove env source destination start stop) ks =
      runKeyspace c (Engine.withMutDelta env source (.ok none) (popFrom start) >>=
        pushPopped env source destination start stop) ks := by
  rw [lmove, runKeyspace_bind, runKeyspace_withRef]
  cases hslot : ks destination with
  | none => rfl
  | some e =>
    obtain ⟨v, d⟩ := e
    obtain ⟨l, rfl⟩ := hdest v d hslot
    rfl

include hmem

theorem runKeyspace_lmove_missing (hdest : (ks destination).TakesPush)
    (hsource : ks source = none) :
    runKeyspace c (lmove env source destination start stop) ks = (some (.ok none), ks) := by
  rw [runKeyspace_lmove_takes hdest, runKeyspace_bind, runKeyspace_withMutDelta hmem, hsource]
  have hsame : update ks source none = ks := by
    rw [← hsource, update_eq_self]
  simp only [Option.elim_none, Slot.edit_none, hsame]
  rfl

theorem runKeyspace_lmove_wrongSource (hdest : (ks destination).TakesPush) {v : Value F}
    (hsource : ks source = some (v, d)) (hv : v.NotList) (hfull : v.isEmptyCollection = false) :
    runKeyspace c (lmove env source destination start stop) ks =
      (some (.error .wrongType), ks) := by
  rw [runKeyspace_lmove_takes hdest, runKeyspace_bind, runKeyspace_withMutDelta hmem, hsource]
  have hpop : (popFrom start v : EngineResult (Option Bytes) × Value F × Int) =
      (.error .wrongType, v, 0) := by
    cases v with
    | list l => exact absurd rfl (hv l)
    | string b => rfl
    | hash m => rfl
    | set s => rfl
    | sortedSet z => rfl
  have hsame : update ks source (some (v, d)) = ks := by
    rw [← hsource, update_eq_self]
  simp only [Option.elim_some, Slot.edit_some, hpop, hfull, Bool.false_eq_true, if_false, hsame]
  rfl

theorem runKeyspace_lmove_popped (hdest : (ks destination).TakesPush)
    (hsource : ks source = some (.list (pushEnd start x rest), d)) :
    runKeyspace c (lmove env source destination start stop) ks =
      runKeyspace c (pushPopped env source destination start stop (.ok (some x)))
        (update ks source (Slot.ofList rest d)) := by
  rw [runKeyspace_lmove_takes hdest, runKeyspace_bind, runKeyspace_withMutDelta hmem, hsource]
  simp only [Option.elim_some, Slot.edit_some, popFrom, Variant.edit, Variant.list, popEnd_pushEnd,
    Value.isEmptyCollection, List.isEmpty_iff, Slot.ofList]

theorem runKeyspace_pushPopped_new (hdest : ks destination = none) :
    runKeyspace c (pushPopped env source destination start stop (.ok (some x))) ks =
      (some (.ok (some x)), update ks destination (some (.list [x], none))) := by
  rw [pushPopped, runKeyspace_bind, pushOne, runKeyspace_upsert hmem, hdest]
  rfl

theorem runKeyspace_pushPopped_list {m : List Bytes} (hdest : ks destination = some (.list m, d)) :
    runKeyspace c (pushPopped env source destination start stop (.ok (some x))) ks =
      (some (.ok (some x)), update ks destination (some (.list (pushEnd stop x m), d))) := by
  rw [pushPopped, runKeyspace_bind, pushOne, runKeyspace_upsert hmem, hdest]
  have hfull : (Value.list (pushEnd stop x m) : Value F).isEmptyCollection = false :=
    list_nonempty (pushEnd_ne_nil stop x m)
  simp only [Slot.edit_some, Variant.edit, Variant.list, hfull, Bool.false_eq_true, if_false]
  rfl

theorem runKeyspace_lmove_new (hne : source ≠ destination) (hdest : ks destination = none)
    (hsource : ks source = some (.list (pushEnd start x rest), d)) :
    runKeyspace c (lmove env source destination start stop) ks =
      (some (.ok (some x)), update (update ks source (Slot.ofList rest d))
        destination (some (.list [x], none))) := by
  have htakes : (ks destination).TakesPush := by
    intro v d hslot
    rw [hdest] at hslot
    cases hslot
  rw [runKeyspace_lmove_popped hmem htakes hsource]
  apply runKeyspace_pushPopped_new hmem
  rw [update_of_ne hne.symm, hdest]

theorem runKeyspace_lmove_list (hne : source ≠ destination) {m : List Bytes} {e : Option Nat}
    (hdest : ks destination = some (.list m, e))
    (hsource : ks source = some (.list (pushEnd start x rest), d)) :
    runKeyspace c (lmove env source destination start stop) ks =
      (some (.ok (some x)), update (update ks source (Slot.ofList rest d))
        destination (some (.list (pushEnd stop x m), e))) := by
  have htakes : (ks destination).TakesPush := by
    intro v d hslot
    rw [hdest] at hslot
    cases hslot
    exact ⟨m, rfl⟩
  rw [runKeyspace_lmove_popped hmem htakes hsource]
  apply runKeyspace_pushPopped_list hmem
  rw [update_of_ne hne.symm, hdest]

theorem runKeyspace_lmove_same (hsource : ks source = some (.list (pushEnd start x rest), d)) :
    runKeyspace c (lmove env source source start stop) ks =
      (some (.ok (some x)), update ks source
        (some (.list (pushEnd stop x rest), if rest = [] then none else d))) := by
  have htakes : (ks source).TakesPush := by
    intro v d hslot
    rw [hsource] at hslot
    cases hslot
    exact ⟨_, rfl⟩
  rw [runKeyspace_lmove_popped hmem htakes hsource]
  have hslot : update ks source (Slot.ofList rest d) source = Slot.ofList rest d :=
    update_self _ _ _
  by_cases hrest : rest = []
  · subst hrest
    rw [if_pos rfl, runKeyspace_pushPopped_new hmem hslot, update_idem]
    cases stop <;> rfl
  · rw [Slot.ofList, if_neg hrest] at hslot
    rw [if_neg hrest, Slot.ofList, if_neg hrest, runKeyspace_pushPopped_list hmem hslot,
      update_idem]

end

def lmoved (env : Env) (st : Store F) (source destination : Bytes) (start stop : ListEnd) :
    Option (EngineResult (Option Bytes)) × Keyspace F :=
  ((runEngine env (lmove env source destination start stop) st).1,
    (runEngine env (lmove env source destination start stop) st).2.live env.clock)

/-- LMOVE takes the element at one end of the source and puts it at one end of the destination, or
changes nothing. A value of another type is one that the engine keeps: no empty collection. -/
structure MovesFaithfully (env : Env) (st : Store F) (source destination : Bytes)
    (start stop : ListEnd) : Prop where
  wrongDestination : ∀ v d, st.live env.clock destination = some (v, d) → v.NotList →
    lmoved env st source destination start stop = (some (.error .wrongType), st.live env.clock)
  missingSource : (st.live env.clock destination).TakesPush → st.live env.clock source = none →
    lmoved env st source destination start stop = (some (.ok none), st.live env.clock)
  wrongSource : (st.live env.clock destination).TakesPush →
    ∀ v d, st.live env.clock source = some (v, d) → v.NotList → v.isEmptyCollection = false →
      lmoved env st source destination start stop = (some (.error .wrongType), st.live env.clock)
  toNew : source ≠ destination → st.live env.clock destination = none →
    ∀ x rest d, st.live env.clock source = some (.list (pushEnd start x rest), d) →
      lmoved env st source destination start stop =
        (some (.ok (some x)),
          update (update (st.live env.clock) source (Slot.ofList rest d))
            destination (some (.list [x], none)))
  toList : source ≠ destination → ∀ m e, st.live env.clock destination = some (.list m, e) →
    ∀ x rest d, st.live env.clock source = some (.list (pushEnd start x rest), d) →
      lmoved env st source destination start stop =
        (some (.ok (some x)),
          update (update (st.live env.clock) source (Slot.ofList rest d))
            destination (some (.list (pushEnd stop x m), e)))
  turns : source = destination → ∀ l d, l ≠ [] → st.live env.clock source = some (.list l, d) →
    lmoved env st source destination start stop =
      (some (.ok (popEnd start l).1),
        update (st.live env.clock) source (some (.list (turned start stop l), d)))

variable {st : Store F} {source destination : Bytes} {start stop : ListEnd}

theorem lmoved_eq (hmem : env.maxmemory = none) :
    lmoved env st source destination start stop =
      runKeyspace env.clock (lmove env source destination start stop) (st.live env.clock) := by
  have hs : source ∈ [source, destination] := List.mem_cons_self
  have hd : destination ∈ [source, destination] := List.mem_cons_of_mem _ List.mem_cons_self
  have hcalls := ((lmove_atomic (F := F) hmem hs hd start stop).toAtomic env.clock).touches
  obtain ⟨hreply, hlive⟩ := runEngine_live hcalls env st
  exact Prod.ext hreply hlive

theorem lmoved_same (hmem : env.maxmemory = none) {l : List Bytes} {d : Option Nat} (hl : l ≠ [])
    (hlive : st.live env.clock source = some (.list l, d)) :
    lmoved env st source source start stop =
      (some (.ok (popEnd start l).1), update (st.live env.clock) source
        (some (.list (turned start stop l), if l.length = 1 then none else d))) := by
  obtain ⟨x, rest, rfl⟩ := exists_pushEnd start hl
  have hsingle : (pushEnd start x rest).length = 1 ↔ rest = [] := by
    cases start <;> simp [pushEnd]
  rw [lmoved_eq hmem, runKeyspace_lmove_same hmem hlive, popEnd_pushEnd, turned_pushEnd]
  simp only [hsingle]

/-- LMOVE is faithful unless it turns a list of one element that has an expiry. -/
theorem moves_faithfully_iff (hmem : env.maxmemory = none) (st : Store F)
    (source destination : Bytes) (start stop : ListEnd) :
    MovesFaithfully env st source destination start stop ↔
      ¬ (source = destination ∧ ∃ x t, st.live env.clock source = some (.list [x], some t)) := by
  constructor
  · rintro h ⟨rfl, x, t, hlive⟩
    have hturns := h.turns rfl [x] (some t) (List.cons_ne_nil _ _) hlive
    rw [lmoved_same hmem (List.cons_ne_nil _ _) hlive, Prod.mk.injEq] at hturns
    have hslot := congrFun hturns.2 source
    rw [update_self, update_self, Option.some.injEq, Prod.mk.injEq] at hslot
    cases hslot.2
  · intro h
    refine ⟨?_, ?_, ?_, ?_, ?_, ?_⟩
    · intro v d hlive hv
      rw [lmoved_eq hmem, runKeyspace_lmove_refused hlive hv]
    · intro htakes hlive
      rw [lmoved_eq hmem, runKeyspace_lmove_missing hmem htakes hlive]
    · intro htakes v d hlive hv hfull
      rw [lmoved_eq hmem, runKeyspace_lmove_wrongSource hmem htakes hlive hv hfull]
    · intro hne hdest x rest d hlive
      rw [lmoved_eq hmem, runKeyspace_lmove_new hmem hne hdest hlive]
    · intro hne m e hdest x rest d hlive
      rw [lmoved_eq hmem, runKeyspace_lmove_list hmem hne hdest hlive]
    · rintro rfl l d hl hlive
      have hexpiry : (if l.length = 1 then none else d) = d := by
        split_ifs with hone
        · obtain ⟨x, rfl⟩ := List.length_eq_one_iff.mp hone
          cases d with
          | none => rfl
          | some t => exact absurd ⟨rfl, x, t, hlive⟩ h
        · rfl
      rw [lmoved_same hmem hl hlive, hexpiry]

theorem moves_faithfully_pair :
    MovesFaithfully Env.still pairStore (txt "k") (txt "k") .left .right := by
  refine (moves_faithfully_iff rfl pairStore (txt "k") (txt "k") .left .right).mpr ?_
  rintro ⟨-, x, t, hlive⟩
  rw [live_pairStore] at hlive
  cases hlive

def fleetingStore : Store Score :=
  ((Store.new.set (txt "k") (.list [txt "a"])).expireAt 0 (txt "k") 1000).2

theorem live_fleetingStore :
    fleetingStore.live Env.still.clock (txt "k") = some (.list [txt "a"], some 1000) := by
  have hset := (KeyOp.exec_live .zero (txt "k") (Store.new : Store Score)
    (.set (.list [txt "a"]))).2
  have hexpire := (KeyOp.exec_live .zero (txt "k")
    ((Store.new : Store Score).set (txt "k") (.list [txt "a"])) (.expireAt 1000)).2
  have hslot : Store.live .zero ((Store.new : Store Score).set (txt "k") (.list [txt "a"]))
      (txt "k") = some (.list [txt "a"], none) :=
    (congrFun hset (txt "k")).trans (update_self _ _ _)
  refine (congrFun hexpire (txt "k")).trans ?_
  rw [update_self, hslot]
  rfl

/-- LMOVE k k LEFT RIGHT of one element drops the expiry. -/
theorem lmove_drops_expiry :
    lmoved Env.still fleetingStore (txt "k") (txt "k") .left .right =
        (some (.ok (some (txt "a"))),
          update (fleetingStore.live Env.still.clock) (txt "k") (some (.list [txt "a"], none))) ∧
      ¬ MovesFaithfully Env.still fleetingStore (txt "k") (txt "k") .left .right := by
  have hmoved : lmoved Env.still fleetingStore (txt "k") (txt "k") .left .right =
      (some (.ok (some (txt "a"))),
        update (fleetingStore.live Env.still.clock) (txt "k") (some (.list [txt "a"], none))) :=
    lmoved_same rfl (List.cons_ne_nil _ _) live_fleetingStore
  refine ⟨hmoved, ?_⟩
  intro h
  have hturns := h.turns rfl _ _ (List.cons_ne_nil _ _) live_fleetingStore
  rw [hmoved, Prod.mk.injEq] at hturns
  have hslot := congrFun hturns.2 (txt "k")
  rw [update_self, update_self, Option.some.injEq, Prod.mk.injEq] at hslot
  cases hslot.2

end RocketMem
