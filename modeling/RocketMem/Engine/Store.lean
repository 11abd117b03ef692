import Mathlib.Data.List.OfFn
import RocketMem.Engine.Shard
import RocketMem.Framework.SipHash

namespace RocketMem

open Function

variable {F : Type} [F64 F]

def shardCount : Nat := 16

/-- `Store::shard_index`: the default hasher over the key's length prefix and bytes. -/
def shardIndex (key : Bytes) : Fin shardCount :=
  ⟨(sipHash13 0 0 (leBytes 8 key.length ++ key)).toNat % shardCount, Nat.mod_lt _ (by decide)⟩

/-- The sharded store: every stored key sits in the shard it hashes to. `tick` is the recency
clock that operations stamp entries with. -/
structure Store (F : Type) [F64 F] where
  shards : Fin shardCount → Shard F
  tick : Nat
  routed : ∀ i k, k ∈ (shards i).map → shardIndex k = i

def Shard.ChangesOnly (key : Bytes) (s s' : Shard F) : Prop :=
  ∀ k, k ≠ key → s'.map.lookup k = s.map.lookup k

namespace Shard

theorem changesOnly_refl (key : Bytes) (s : Shard F) : ChangesOnly key s s := fun _ _ => rfl

theorem changesOnly_drop (key : Bytes) (s : Shard F) (e : Entry F) :
    ChangesOnly key s (s.drop key e) :=
  fun _ hk => Finmap.lookup_erase_ne hk

theorem changesOnly_insert (key : Bytes) (s : Shard F) (e : Entry F) (used : UInt64) :
    ChangesOnly key s ⟨s.map.insert key e, used⟩ :=
  fun _ hk => Finmap.lookup_insert_of_ne s.map hk

theorem get_changesOnly (now tick : Nat) (s : Shard F) (key : Bytes) :
    ChangesOnly key s (s.get now tick key).2 := by
  unfold get
  split
  · exact changesOnly_refl key s
  · split
    · exact changesOnly_drop key s _
    · exact changesOnly_insert key s _ _

theorem del_changesOnly (now : Nat) (s : Shard F) (key : Bytes) :
    ChangesOnly key s (s.del now key).2 := by
  unfold del
  split
  · exact changesOnly_refl key s
  · exact changesOnly_drop key s _

theorem withRef_changesOnly (now tick : Nat) (s : Shard F) (key : Bytes) :
    ChangesOnly key s (s.withRef now tick key).2 := by
  unfold withRef
  split
  · split
    · exact changesOnly_refl key s
    · exact changesOnly_insert key s _ _
  · exact changesOnly_refl key s

theorem withMutDelta_changesOnly (now tick : Nat) (s : Shard F) (key : Bytes)
    (f : Value F → Value F × Int) : ChangesOnly key s (s.withMutDelta now tick key f).2 := by
  unfold withMutDelta
  split
  · exact changesOnly_refl key s
  · split
    · exact changesOnly_drop key s _
    · simp only
      split
      · intro k hk
        rw [changesOnly_drop key _ _ k hk, changesOnly_insert key s _ _ k hk]
      · exact changesOnly_insert key s _ _

theorem expireAt_changesOnly (now : Nat) (s : Shard F) (key : Bytes) (deadline : Nat) :
    ChangesOnly key s (s.expireAt now key deadline).2 := by
  unfold expireAt
  split
  · split
    · exact changesOnly_refl key s
    · exact changesOnly_insert key s _ _
  · exact changesOnly_refl key s

theorem persist_changesOnly (now : Nat) (s : Shard F) (key : Bytes) :
    ChangesOnly key s (s.persist now key).2 := by
  unfold persist
  split
  · split
    · exact changesOnly_insert key s _ _
    · exact changesOnly_refl key s
  · exact changesOnly_refl key s

end Shard

namespace Store

def new : Store F where
  shards _ := Shard.new
  tick := 0
  routed _ _ hk := absurd hk Finmap.notMem_empty

def shardFor (st : Store F) (key : Bytes) : Shard F := st.shards (shardIndex key)

def withShard (st : Store F) (key : Bytes) (s : Shard F) (h : (st.shardFor key).ChangesOnly key s) :
    Store F where
  shards := update st.shards (shardIndex key) s
  tick := st.tick
  routed i k hk := by
    by_cases hi : i = shardIndex key
    · subst hi
      rw [update_self] at hk
      by_cases hkey : k = key
      · rw [hkey]
      · rw [← Finmap.lookup_isSome, h k hkey, Finmap.lookup_isSome] at hk
        exact st.routed _ k hk
    · rw [update_of_ne hi] at hk
      exact st.routed i k hk

variable (now : Nat) (st : Store F)

def get (key : Bytes) : Option (Value F) × Store F :=
  let r := (st.shardFor key).get now st.tick key
  (r.1, st.withShard key r.2 (Shard.get_changesOnly now st.tick _ key))

def set (key : Bytes) (value : Value F) : Store F :=
  st.withShard key ((st.shardFor key).set st.tick key value) (Shard.changesOnly_insert key _ _ _)

def del (key : Bytes) : Bool × Store F :=
  let r := (st.shardFor key).del now key
  (r.1, st.withShard key r.2 (Shard.del_changesOnly now _ key))

def withRef (key : Bytes) : Option (Value F) × Store F :=
  let r := (st.shardFor key).withRef now st.tick key
  (r.1, st.withShard key r.2 (Shard.withRef_changesOnly now st.tick _ key))

def withMutDelta (key : Bytes) (f : Value F → Value F × Int) : Option (Value F) × Store F :=
  let r := (st.shardFor key).withMutDelta now st.tick key f
  (r.1, st.withShard key r.2 (Shard.withMutDelta_changesOnly now st.tick _ key f))

def expireAt (key : Bytes) (deadline : Nat) : Bool × Store F :=
  let r := (st.shardFor key).expireAt now key deadline
  (r.1, st.withShard key r.2 (Shard.expireAt_changesOnly now _ key deadline))

def persist (key : Bytes) : Bool × Store F :=
  let r := (st.shardFor key).persist now key
  (r.1, st.withShard key r.2 (Shard.persist_changesOnly now _ key))

def ttl (key : Bytes) : TtlStatus := (st.shardFor key).ttl now key

def existsKey (key : Bytes) : Bool × Store F :=
  let r := st.withRef now key
  (r.1.isSome, r.2)

def clearShard (j : Fin shardCount) : Store F where
  shards := update st.shards j (st.shards j).clear
  tick := st.tick
  routed i k hk := by
    by_cases hi : i = j
    · subst hi
      rw [update_self] at hk
      exact absurd hk Finmap.notMem_empty
    · rw [update_of_ne hi] at hk
      exact st.routed i k hk

def advanceClock : Store F := { st with tick := st.tick + 1 }

/-- `load_snapshot_entries`: clear every shard, then insert each entry and its expiry. -/
def loadSnapshotEntries (entries : List (Bytes × Value F × Option Nat)) : Store F :=
  entries.foldl
    (fun st (key, value, expiresAt) =>
      match expiresAt with
      | some deadline => ((st.set key value).expireAt now key deadline).2
      | none => st.set key value)
    { (new : Store F) with tick := st.tick }

end Store

end RocketMem
