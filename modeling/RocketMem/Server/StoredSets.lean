import RocketMem.Engine.Survival
import RocketMem.Server.WriteProof

namespace RocketMem

open List Function

variable {F : Type} [F64 F] {env : Env}

inductive Combination where
  | inter
  | union
  | diff
  deriving DecidableEq, Repr

namespace Combination

def command : Combination → CommandName
  | inter => .sinterstore
  | union => .sunionstore
  | diff => .sdiffstore

def combine : Combination → List (Finset Bytes) → Finset Bytes
  | inter, sets => interAll sets
  | union, sets => sets.foldl (· ∪ ·) ∅
  | diff, sets => diffAll sets

def Holds : Combination → List (Finset Bytes) → Bytes → Prop
  | inter, sets, m => ∀ s ∈ sets, m ∈ s
  | union, sets, m => ∃ s ∈ sets, m ∈ s
  | diff, sets, m => ∃ s rest, sets = s :: rest ∧ m ∈ s ∧ ∀ t ∈ rest, m ∉ t

variable {m : Bytes} (sets : List (Finset Bytes)) (s : Finset Bytes)

theorem mem_foldl_inter : m ∈ sets.foldl (· ∩ ·) s ↔ m ∈ s ∧ ∀ t ∈ sets, m ∈ t := by
  induction sets generalizing s with
  | nil => simp
  | cons t sets ih => rw [foldl_cons, ih, Finset.mem_inter, forall_mem_cons, and_assoc]

theorem mem_foldl_union : m ∈ sets.foldl (· ∪ ·) s ↔ m ∈ s ∨ ∃ t ∈ sets, m ∈ t := by
  induction sets generalizing s with
  | nil => simp
  | cons t sets ih => rw [foldl_cons, ih, Finset.mem_union, exists_mem_cons_iff, or_assoc]

theorem mem_foldl_diff : m ∈ sets.foldl (· \ ·) s ↔ m ∈ s ∧ ∀ t ∈ sets, m ∉ t := by
  induction sets generalizing s with
  | nil => simp
  | cons t sets ih => rw [foldl_cons, ih, Finset.mem_sdiff, forall_mem_cons, and_assoc]

theorem mem_combine (op : Combination) {sets : List (Finset Bytes)} (hsets : sets ≠ []) :
    m ∈ op.combine sets ↔ op.Holds sets m := by
  obtain ⟨s, rest, rfl⟩ := exists_cons_of_ne_nil hsets
  cases op with
  | inter => rw [combine, interAll, mem_foldl_inter, Holds, forall_mem_cons]
  | union =>
    rw [combine, mem_foldl_union, Holds]
    simp
  | diff =>
    rw [combine, diffAll, mem_foldl_diff, Holds]
    constructor
    · exact fun h => ⟨s, rest, rfl, h⟩
    · rintro ⟨_, _, heq, h⟩
      cases heq
      exact h

end Combination

/-- The set under a key: a missing key counts as the empty one, another type as none at all. -/
def Slot.asSet : Slot F → Option (Finset Bytes)
  | none => some ∅
  | some (v, _) => Variant.set.get v

section

variable (c : Clock) (ks : Keyspace F)

theorem runKeyspace_getSet (key : Bytes) :
    runKeyspace c (getSet key) ks = (some ((ks key).asSet.elim (.error .wrongType) .ok), ks) := by
  rw [getSet, runKeyspace_bind, runKeyspace_get]
  cases ks key with
  | none => rfl
  | some e =>
    obtain ⟨v, d⟩ := e
    cases v <;> rfl

theorem runKeyspace_getSets (keys : List Bytes) :
    runKeyspace c (getSets keys) ks =
      (some ((keys.mapM fun k => (ks k).asSet).elim (.error .wrongType) .ok), ks) := by
  induction keys with
  | nil => rfl
  | cons k keys ih =>
    rw [getSets, runKeyspace_bind, runKeyspace_getSet, mapM_cons]
    cases (ks k).asSet with
    | none => rfl
    | some s =>
      dsimp only [Option.elim_some]
      rw [runKeyspace_bind, ih]
      cases (keys.mapM fun k => (ks k).asSet) <;> rfl

theorem mapM_eq_some_of_map {α β : Type} {f : α → Option β} {l : List α} {bs : List β}
    (h : l.map f = bs.map some) : l.mapM f = some bs := by
  induction l generalizing bs with
  | nil =>
    rw [map_nil, eq_comm, map_eq_nil_iff] at h
    rw [h, mapM_nil]
    rfl
  | cons a l ih =>
    cases bs with
    | nil => cases h
    | cons b bs =>
      rw [map_cons, map_cons, List.cons.injEq] at h
      rw [mapM_cons, h.1, ih h.2]
      rfl

theorem mapM_eq_none_of_mem {α β : Type} {f : α → Option β} {l : List α}
    (h : ∃ a ∈ l, f a = none) : l.mapM f = none := by
  induction l with
  | nil =>
    obtain ⟨a, ha, -⟩ := h
    cases ha
  | cons b l ih =>
    rw [mapM_cons]
    cases hb : f b with
    | none => rfl
    | some y =>
      obtain ⟨a, ha, hnone⟩ := h
      have hrest : a ∈ l := by
        refine (mem_cons.mp ha).resolve_left ?_
        rintro rfl
        rw [hb] at hnone
        cases hnone
      rw [ih ⟨a, hrest, hnone⟩]
      rfl

end

section

variable (hmem : env.maxmemory = none) (c : Clock) (ks : Keyspace F) (dest : Bytes)

include hmem

theorem runKeyspace_storeOrDelete (result : Finset Bytes) :
    runKeyspace c (storeOrDelete env dest result) ks =
      (some result.card,
        update ks dest (if result = ∅ then none else some (.set result, none))) := by
  unfold storeOrDelete
  split_ifs with h
  · rfl
  · rw [runKeyspace_bind, runKeyspace_engineSet hmem]
    rfl

theorem runKeyspace_storeResult (keys : List Bytes) (f : List (Finset Bytes) → Finset Bytes) :
    runKeyspace c (storeResult env dest (do return (← getSets keys).map f)) ks =
      ((keys.mapM fun k => (ks k).asSet).elim (some (.error .wrongType), ks) fun sets =>
        (some (.ok (f sets).card), update ks dest
          (if f sets = ∅ then none else some (.set (f sets), none)))) := by
  rw [storeResult, runKeyspace_bind, runKeyspace_bind, runKeyspace_getSets]
  cases keys.mapM fun k => (ks k).asSet with
  | none => rfl
  | some sets =>
    dsimp only [Option.elim_some]
    simp only [Except.map, runKeyspace_ret, Program.pure_eq]
    rw [runKeyspace_bind, runKeyspace_storeOrDelete hmem]
    rfl

theorem runKeyspace_combination (op : Combination) {raw : Bytes}
    (hraw : commandName raw = some op.command) {keys : List Bytes} (hkeys : keys ≠ []) :
    runKeyspace c (dispatch env (.command (raw :: dest :: keys))) ks =
      ((keys.mapM fun k => (ks k).asSet).elim (some (engineErrorToFrame .wrongType), ks) fun sets =>
        (some (countReply (op.combine sets).card), update ks dest
          (if op.combine sets = ∅ then none else some (.set (op.combine sets), none)))) := by
  have harm : (Dispatch.arm env op.command (dest :: keys) : EngineProgram F Frame) =
      replyWith countReply <$> storeResult env dest (do return (← getSets keys).map op.combine) := by
    obtain ⟨k, rest, rfl⟩ := exists_cons_of_ne_nil hkeys
    cases op <;> rfl
  rw [dispatch_command hraw, harm, runKeyspace_map, runKeyspace_storeResult hmem]
  cases keys.mapM fun k => (ks k).asSet <;> rfl

end

/-- Without a memory ceiling, a combination of sets that is stored is exactly the one of the sets
before the call, and it changes the destination only; a source of another type is refused. -/
theorem stored_sets_exact (env : Env) (hmem : env.maxmemory = none) (op : Combination) (raw : Bytes)
    (hraw : commandName raw = some op.command) (st : Store F) (dest : Bytes) (keys : List Bytes)
    (hkeys : keys ≠ []) :
    (∀ sets : List (Finset Bytes),
      keys.map (fun k => (st.live env.clock k).asSet) = sets.map some →
      ∃ result : Finset Bytes, (∀ m, m ∈ result ↔ op.Holds sets m) ∧
        (runEngine env (dispatch env (.command (raw :: dest :: keys))) st).1 =
          some (.integer result.card) ∧
        (runEngine env (dispatch env (.command (raw :: dest :: keys))) st).2.live env.clock =
          update (st.live env.clock) dest (if result = ∅ then none else some (.set result, none))) ∧
    ((∃ k ∈ keys, (st.live env.clock k).asSet = none) →
      (runEngine env (dispatch env (.command (raw :: dest :: keys))) st).1 =
          some (.error EngineError.wrongType.text) ∧
        (runEngine env (dispatch env (.command (raw :: dest :: keys))) st).2.live env.clock =
          st.live env.clock) := by
  have hwrite : op.command.isWrite = true := by cases op <;> rfl
  have hcalls := (arm_atomic (F := F) hmem hwrite (dest :: keys)).touches
  rw [← dispatch_command hraw] at hcalls
  obtain ⟨hreply, hlive⟩ := runEngine_live hcalls env st
  rw [runKeyspace_combination hmem _ _ _ op hraw hkeys] at hreply hlive
  rw [hreply, hlive]
  constructor
  · intro sets hsets
    have hne : sets ≠ [] := by
      rintro rfl
      exact hkeys (map_eq_nil_iff.mp hsets)
    refine ⟨op.combine sets, fun m => op.mem_combine hne, ?_⟩
    rw [mapM_eq_some_of_map hsets]
    exact ⟨rfl, rfl⟩
  · intro hother
    rw [mapM_eq_none_of_mem hother]
    exact ⟨rfl, rfl⟩

def oneSetStore : Store Score := Store.new.set (txt "a") (.set {txt "x"})

theorem live_oneSetStore :
    oneSetStore.live Env.still.clock =
      update (fun _ => none) (txt "a") (some (.set {txt "x"}, none)) :=
  (KeyOp.exec_live .zero (txt "a") (Store.new : Store Score) (.set (.set {txt "x"}))).2

theorem stored_sets_exact_union :
    ∃ result : Finset Bytes,
      (∀ m, m ∈ result ↔ Combination.union.Holds [{txt "x"}, ∅] m) ∧
      (runEngine Env.still (dispatch Env.still
        (.command [txt "SUNIONSTORE", txt "a", txt "a", txt "b"])) oneSetStore).1 =
          some (.integer result.card) := by
  have hexact := (stored_sets_exact Env.still rfl .union (txt "SUNIONSTORE") (by decide)
    oneSetStore (txt "a") [txt "a", txt "b"] (cons_ne_nil _ _)).1 [{txt "x"}, ∅]
  rw [live_oneSetStore] at hexact
  obtain ⟨result, hmem, hreply, -⟩ := hexact (by decide)
  exact ⟨result, hmem, hreply⟩

end RocketMem
