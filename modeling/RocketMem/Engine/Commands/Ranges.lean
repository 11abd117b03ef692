import RocketMem.Engine.Commands.Shapes
import RocketMem.Engine.SortedIndexes
import RocketMem.Framework.Positions

namespace RocketMem

open Function

variable {F : Type} [F64 F] {R : Type} {env : Env}

def AnswersLeaving (env : Env) (st : Store F) (p : EngineProgram F R) (r : R) (ks : Keyspace F) :
    Prop :=
  ∃ st', st'.live env.clock = ks ∧
    runEngine env p st = (some r, (runEngine env (Engine.maybeEvict env) st').2)

theorem Engine.overShards_returns {f : Fin shardCount → EngineProgram F R}
    (hf : ∀ i, (f i).Returns) : (overShards f).Returns :=
  .mapM hf _

theorem Engine.evict_returns (ceiling attempts : Nat) :
    (evict ceiling attempts : EngineProgram F Unit).Returns := by
  induction attempts with
  | zero => exact .ret ()
  | succ attempts ih =>
    have hused : (memoryUsed : EngineProgram F UInt64).Returns :=
      (overShards_returns fun i => .perform (EngineOp.shardBytesUsed i)).bind fun _ => .ret _
    have hsample : (sampleForEviction 5 : EngineProgram F _).Returns :=
      (overShards_returns fun i => .perform (EngineOp.sampleRecency i 5)).bind fun _ => .ret _
    refine hused.bind fun used => ?_
    split_ifs
    · exact .ret ()
    · refine hsample.bind fun sample => ?_
      cases oldest sample with
      | none => exact .ret ()
      | some key =>
        exact (Program.Returns.perform (EngineOp.key key .withRef)).bind fun _ =>
          (Program.Returns.perform (EngineOp.key key .del)).bind fun _ => ih

theorem Engine.maybeEvict_returns (env : Env) :
    (maybeEvict env : EngineProgram F Unit).Returns := by
  unfold maybeEvict
  cases env.maxmemory with
  | none => exact .ret ()
  | some ceiling => exact evict_returns ceiling 1000

theorem Engine.withMutDelta_eq (key : Bytes) (absent : R) (f : Value F → R × Value F × Int) :
    withMutDelta env key absent f =
      perform key (.withMutDelta fun v => (f v).2) >>= fun old =>
        maybeEvict env >>= fun _ => .ret (old.elim absent fun v => (f v).1) := by
  unfold withMutDelta
  congr 1
  funext old
  cases old <;> rfl

theorem leaves_withMutDelta (env : Env) (st : Store F) (key : Bytes) (absent : R)
    (f : Value F → R × Value F × Int) :
    AnswersLeaving env st (Engine.withMutDelta env key absent f)
      ((st.live env.clock key).elim absent fun e => (f e.1).1)
      (update (st.live env.clock) key ((st.live env.clock key).edit fun v => (f v).2.1)) := by
  obtain ⟨hold, hlive⟩ := KeyOp.exec_live env.clock key st (.withMutDelta fun v => (f v).2)
  refine ⟨_, hlive, ?_⟩
  have hreply : ((KeyOp.exec env.clock.mono key st (.withMutDelta fun v => (f v).2)).1.elim absent
      fun v => (f v).1) = (st.live env.clock key).elim absent fun e => (f e.1).1 := by
    rw [hold]
    simp only [KeyOp.onSlot]
    cases st.live env.clock key <;> rfl
  rw [Engine.withMutDelta_eq, ← hreply]
  exact (Engine.maybeEvict_returns env).run_ret _ _ _

section

def resolve (len index : Int) : Int := if index < 0 then len + index else index

def between (l : List Bytes) (start stop : Int) : List Bytes :=
  atPositions (fun p => resolve l.length start ≤ p ∧ p ≤ resolve l.length stop) l

def StopsBefore (len start stop : Int) : Prop :=
  0 < len ∧ resolve len start ≤ 0 ∧ resolve len stop < 0

variable {l : List Bytes} {start stop : Int}

theorem slice_eq_between (h : ¬ StopsBefore l.length start stop) :
    slice l.length l start stop = between l start stop := by
  unfold slice between
  dsimp only
  rw [← atPositions_window]
  apply atPositions_congr
  intro p hp
  simp only [decide_eq_decide]
  simp only [StopsBefore, resolve] at h
  simp only [normalizeRange, clampIndex, resolve]
  split_ifs at h ⊢ <;> omega

theorem between_eq_nil (h : StopsBefore l.length start stop) : between l start stop = [] := by
  apply atPositions_none
  intro p _
  have hstop := h.2.2
  rw [decide_eq_false_iff_not]
  omega

theorem slice_of_stopsBefore (h : StopsBefore l.length start stop) :
    slice l.length l start stop = l.take 1 := by
  have hrange : normalizeRange l.length start stop = (0, 1) := by
    simp only [StopsBefore, resolve] at h
    simp only [normalizeRange, clampIndex]
    split_ifs at h ⊢ <;> simp only [Prod.mk.injEq] <;> omega
  simp [slice, hrange]

theorem slice_eq_between_iff :
    slice l.length l start stop = between l start stop ↔ ¬ StopsBefore l.length start stop := by
  constructor
  · intro heq h
    rw [slice_of_stopsBefore h, between_eq_nil h] at heq
    have hlen := congrArg List.length heq
    have hpos := h.1
    rw [List.length_take, List.length_nil] at hlen
    omega
  · exact slice_eq_between

theorem slice_all (l : List Bytes) : slice l.length l 0 (-1) = l := by
  have hstops : ¬ StopsBefore l.length 0 (-1) := by
    simp only [StopsBefore, resolve]
    omega
  rw [slice_eq_between hstops]
  apply atPositions_all
  intro p hp
  rw [decide_eq_true_eq]
  simp only [resolve]
  omega

theorem drop_take_eq_slice :
    (l.take (normalizeRange l.length start stop).2).drop (normalizeRange l.length start stop).1 =
      slice l.length l start stop := by
  rw [slice, List.drop_take]

end

theorem runEngine_view (env : Env) (st : Store F) (key : Bytes) (absent : R)
    (f : Value F → EngineResult R) :
    (runEngine env (view key absent f) st).1 =
        some ((st.live env.clock key).elim (.ok absent) fun e => f e.1) ∧
      (runEngine env (view key absent f) st).2.live env.clock = st.live env.clock := by
  have hcalls : (view key absent f).Calls (EngineOp.On (· = key)) := by
    have hlook : (Engine.withRef key : EngineProgram F _).Calls (EngineOp.On (· = key)) := .perform rfl
    refine hlook.bind fun v => ?_
    cases v <;> exact .ret _
  obtain ⟨hreply, hlive⟩ := runEngine_live hcalls env st
  rw [hreply, hlive, view, runKeyspace_bind, runKeyspace_withRef]
  cases st.live env.clock key <;> exact ⟨rfl, rfl⟩

variable (env : Env) (st : Store F) (key : Bytes) (start stop : Int)

def Value.extent : Value F → Option Nat
  | .list l => some l.length
  | .sortedSet z => some z.len
  | .string _ | .hash _ | .set _ => none

/-- LRANGE and ZRANGE answer with the range, and LTRIM leaves it. -/
structure RangesAsRedis : Prop where
  lrange : ∀ l d, st.live env.clock key = some (.list l, d) →
    (runEngine env (lrange key start stop) st).1 = some (.ok (between l start stop))
  zrange : ∀ z d, st.live env.clock key = some (.sortedSet z, d) →
    (runEngine env (zrange key start stop) st).1 =
      some (.ok (between z.membersAscending start stop))
  ltrim : ∀ l d, st.live env.clock key = some (.list l, d) →
    AnswersLeaving env st (ltrim env key start stop) (.ok ())
      (update (st.live env.clock) key
        (if between l start stop = [] then none else some (.list (between l start stop), d)))

variable {env st key start stop} {l : List Bytes} {d : Option Nat}

theorem lrange_reply (hl : st.live env.clock key = some (.list l, d)) :
    (runEngine env (lrange key start stop) st).1 = some (.ok (slice l.length l start stop)) := by
  rw [lrange, (runEngine_view env st key _ _).1, hl]
  rfl

theorem zrange_reply {z : SortedSet F} (hz : st.live env.clock key = some (.sortedSet z, d)) :
    (runEngine env (zrange key start stop) st).1 =
      some (.ok (slice z.len z.membersAscending start stop)) := by
  rw [zrange, (runEngine_view env st key _ _).1, hz]
  rfl

theorem leaves_editList (hl : st.live env.clock key = some (.list l, d)) (absent : EngineResult R)
    (f : List Bytes → EngineResult R × List Bytes × Int) :
    AnswersLeaving env st (Engine.withMutDelta env key absent (Variant.list.edit f)) (f l).1
      (update (st.live env.clock) key
        (if (f l).2.1 = [] then none else some (.list (f l).2.1, d))) := by
  have hedit := leaves_withMutDelta env st key absent (Variant.list.edit f)
  simp only [hl, Option.elim_some, Slot.edit_some, Variant.edit, Variant.list,
    Value.isEmptyCollection, List.isEmpty_iff] at hedit
  exact hedit

theorem ltrim_leaves (hl : st.live env.clock key = some (.list l, d)) :
    AnswersLeaving env st (ltrim env key start stop) (.ok ())
      (update (st.live env.clock) key
        (if slice l.length l start stop = [] then none
        else some (.list (slice l.length l start stop), d))) := by
  rw [← drop_take_eq_slice]
  exact leaves_editList hl _ _

/-- Ranges are those of Redis unless the stop lies before the first element and the start does not
lie behind it. -/
theorem ranges_as_redis_iff (env : Env) (st : Store F) (key : Bytes) (start stop : Int) :
    RangesAsRedis env st key start stop ↔
      ∀ v d n, st.live env.clock key = some (v, d) → v.extent = some n →
        ¬ StopsBefore n start stop := by
  constructor
  · intro h v d n hlive hextent
    cases v with
    | list l =>
      cases hextent
      have hreply := h.lrange l d hlive
      rw [lrange_reply hlive, Option.some.injEq, Except.ok.injEq] at hreply
      exact slice_eq_between_iff.mp hreply
    | sortedSet z =>
      cases hextent
      have hreply := h.zrange z d hlive
      rw [zrange_reply hlive, Option.some.injEq, Except.ok.injEq,
        ← z.length_membersAscending] at hreply
      rw [← z.length_membersAscending]
      exact slice_eq_between_iff.mp hreply
    | string b => cases hextent
    | hash m => cases hextent
    | set s => cases hextent
  · intro h
    refine ⟨?_, ?_, ?_⟩
    · intro l d hlive
      rw [lrange_reply hlive, slice_eq_between (h _ d _ hlive rfl)]
    · intro z d hlive
      have hshort := h _ d _ hlive rfl
      rw [← z.length_membersAscending] at hshort
      rw [zrange_reply hlive, ← z.length_membersAscending, slice_eq_between hshort]
    · intro l d hlive
      rw [← slice_eq_between (h _ d _ hlive rfl)]
      exact ltrim_leaves hlive

def pairStore : Store Score := Store.new.set (txt "k") (.list [txt "a", txt "b"])

theorem live_pairStore :
    pairStore.live Env.still.clock (txt "k") = some (.list [txt "a", txt "b"], none) := by
  have hset := (KeyOp.exec_live .zero (txt "k") (Store.new : Store Score)
    (.set (.list [txt "a", txt "b"]))).2
  exact (congrFun hset (txt "k")).trans (update_self _ _ _)

/-- LRANGE k 0 -100 answers with the first element. -/
theorem lrange_before_first :
    (runEngine Env.still (lrange (txt "k") 0 (-100)) pairStore).1 = some (.ok [txt "a"]) ∧
      ¬ RangesAsRedis Env.still pairStore (txt "k") 0 (-100) := by
  have hreply : (runEngine Env.still (lrange (txt "k") 0 (-100)) pairStore).1 =
      some (.ok [txt "a"]) := by
    rw [lrange_reply live_pairStore]
    rfl
  refine ⟨hreply, ?_⟩
  intro h
  have hempty := h.lrange _ _ live_pairStore
  rw [hreply] at hempty
  exact absurd hempty (by decide)

end RocketMem
