import RocketMem.Engine.Operation
import RocketMem.Framework.Tally

namespace RocketMem

open Function

variable {F : Type} [F64 F]

/-- What the code does to a shard's `bytes_used`. -/
inductive CounterUpdate where
  | add (n : Nat)
  | sub (n : Nat)
  | reset
  deriving DecidableEq, Repr

namespace CounterUpdate

/-- On the `AtomicUsize`, which wraps around. -/
def apply (used : UInt64) : CounterUpdate → UInt64
  | add n => used + UInt64.ofNat n
  | sub n => used - UInt64.ofNat n
  | reset => 0

def post (balance : Nat) : CounterUpdate → Option Nat
  | add n => some (balance + n)
  | sub n => if n ≤ balance then some (balance - n) else none
  | reset => some 0

theorem apply_ofNat {u : CounterUpdate} {n m : Nat} (h : u.post n = some m) :
    u.apply (UInt64.ofNat n) = UInt64.ofNat m := by
  cases u with
  | add k =>
    cases h
    exact (UInt64.ofNat_add n k).symm
  | sub k =>
    by_cases hk : k ≤ n
    · rw [post, if_pos hk] at h
      cases h
      exact (UInt64.ofNat_sub hk).symm
    · rw [post, if_neg hk] at h
      cases h
  | reset =>
    cases h
    rfl

theorem foldl_apply_ofNat {us : List CounterUpdate} {n m : Nat} (h : us.foldlM post n = some m) :
    us.foldl apply (UInt64.ofNat n) = UInt64.ofNat m := by
  induction us generalizing n with
  | nil =>
    cases h
    rfl
  | cons u us ih =>
    rw [List.foldlM_cons] at h
    obtain ⟨k, hk, hrest⟩ := Option.bind_eq_some_iff.mp h
    rw [List.foldl_cons, apply_ofNat hk]
    exact ih hrest

theorem post_sub (n k : Nat) : (sub k).post (n + k) = some n := by
  rw [post, if_pos (Nat.le_add_left k n), Nat.add_sub_cancel]

end CounterUpdate

def deltaUpdates (delta : Int) : List CounterUpdate :=
  if 0 < delta then [.add delta.toNat] else if delta < 0 then [.sub (-delta).toNat] else []

theorem foldl_deltaUpdates (delta : Int) (used : UInt64) :
    (deltaUpdates delta).foldl CounterUpdate.apply used = Shard.addDelta used delta := by
  unfold deltaUpdates Shard.addDelta
  split
  · rfl
  · split <;> rfl

theorem foldlM_deltaUpdates {delta : Int} {n m : Nat} (h : (m : Int) = n + delta) :
    (deltaUpdates delta).foldlM CounterUpdate.post n = some m := by
  unfold deltaUpdates
  split
  · next hpos =>
    have hm : n + delta.toNat = m := by omega
    rw [← hm]
    rfl
  · split
    · next hneg =>
      have hn : n = m + (-delta).toNat := by omega
      rw [hn]
      exact (bind_pure _).trans (CounterUpdate.post_sub _ _)
    · have hm : n = m := by omega
      rw [hm]
      rfl

def Shard.storedBytes (s : Shard F) : Nat := HashMap.total (fun k e => entrySize k e.value) s.map

def Priced (f : Value F → Value F × Int) : Prop :=
  ∀ v, ((f v).1.approxSize : Int) = v.approxSize + (f v).2

def KeyOp.IsPriced : KeyOp F → Prop
  | withMutDelta f => Priced f
  | _ => True

/-- The updates of `bytes_used` that a method of `Shard` makes, in order. -/
def Shard.bill (now : Nat) (s : Shard F) (key : Bytes) : KeyOp F → List CounterUpdate
  | .get =>
    match s.map.lookup key with
    | some e => if e.isExpired now then [.sub (entrySize key e.value)] else []
    | none => []
  | .set value =>
    match s.map.lookup key with
    | some e => [.sub (entrySize key e.value), .add (entrySize key value)]
    | none => [.add (entrySize key value)]
  | .del =>
    match s.map.lookup key with
    | some e => [.sub (entrySize key e.value)]
    | none => []
  | .withMutDelta f =>
    match s.map.lookup key with
    | some e =>
      if e.isExpired now then [.sub (entrySize key e.value)]
      else deltaUpdates (f e.value).2 ++
        if (f e.value).1.isEmptyCollection then [.sub (entrySize key (f e.value).1)] else []
    | none => []
  | _ => []

def Shard.expiredBytes (now : Nat) (s : Shard F) : Nat :=
  HashMap.total (fun k e => entrySize k e.value) (HashMap.retain (fun _ e => e.isExpired now) s.map)

structure Settles (bill : List CounterUpdate) (s s' : Shard F) : Prop where
  counter : s'.bytesUsed = bill.foldl CounterUpdate.apply s.bytesUsed
  balance : bill.foldlM CounterUpdate.post s.storedBytes = some s'.storedBytes

namespace Shard

variable {s : Shard F} {key : Bytes} {e : Entry F}

theorem storedBytes_drop (h : s.map.lookup key = some e) :
    s.storedBytes = (s.drop key e).storedBytes + entrySize key e.value := by
  have htotal := HashMap.total_erase (fun k e => entrySize k e.value) s.map key
  rw [h, Option.elim_some, Nat.add_comm] at htotal
  exact htotal

theorem storedBytes_insert (s : Shard F) (key : Bytes) (e : Entry F) (used : UInt64) :
    (⟨s.map.insert key e, used⟩ : Shard F).storedBytes +
        (s.map.lookup key).elim 0 (fun e => entrySize key e.value) =
      s.storedBytes + entrySize key e.value := by
  have hold := HashMap.total_erase (fun k e => entrySize k e.value) s.map key
  have hnew := HashMap.total_insert (fun k e => entrySize k e.value) s.map key e
  unfold storedBytes
  dsimp only
  omega

theorem settles_refl (s : Shard F) : Settles [] s s := ⟨rfl, rfl⟩

theorem settles_drop (h : s.map.lookup key = some e) :
    Settles [.sub (entrySize key e.value)] s (s.drop key e) where
  counter := rfl
  balance := by
    rw [storedBytes_drop h]
    exact (bind_pure _).trans (CounterUpdate.post_sub _ _)

theorem settles_put (h : s.map.lookup key = some e) {e' : Entry F} (hv : e'.value = e.value) :
    Settles [] s (s.put key e') where
  counter := rfl
  balance := by
    have hinsert := storedBytes_insert s key e' s.bytesUsed
    rw [h, Option.elim_some, hv] at hinsert
    exact congrArg some (Nat.add_right_cancel hinsert).symm

variable (now tick : Nat) (s key)

theorem get_settles : Settles (s.bill now key .get) s (s.get now tick key).2 := by
  unfold bill get
  cases h : s.map.lookup key with
  | none => exact settles_refl s
  | some e =>
    dsimp only
    by_cases hexp : e.isExpired now
    · rw [if_pos hexp, if_pos hexp]
      exact settles_drop h
    · rw [if_neg hexp, if_neg hexp]
      exact settles_put h rfl

theorem set_settles (value : Value F) :
    Settles (s.bill now key (.set value)) s (s.set tick key value) := by
  have hinsert := storedBytes_insert s key ⟨value, none, tick⟩ (s.set tick key value).bytesUsed
  cases h : s.map.lookup key with
  | none =>
    rw [h] at hinsert
    constructor
    · simp [bill, set, h, CounterUpdate.apply]
    · simp only [bill, h]
      exact congrArg some hinsert.symm
  | some e =>
    rw [h] at hinsert
    have hdrop := storedBytes_drop h
    constructor
    · simp [bill, set, h, CounterUpdate.apply]
    · simp only [bill, h]
      rw [List.foldlM_cons, hdrop, CounterUpdate.post_sub]
      have hnew : (s.drop key e).storedBytes + entrySize key value =
          (s.set tick key value).storedBytes := by
        have hset : (s.set tick key value).storedBytes + entrySize key e.value =
            s.storedBytes + entrySize key value := hinsert
        omega
      exact congrArg some hnew

theorem del_settles : Settles (s.bill now key .del) s (s.del now key).2 := by
  unfold bill del
  cases h : s.map.lookup key with
  | none => exact settles_refl s
  | some e => exact settles_drop h

theorem withRef_settles : Settles [] s (s.withRef now tick key).2 := by
  unfold withRef
  cases h : s.map.lookup key with
  | none => exact settles_refl s
  | some e =>
    dsimp only
    split
    · exact settles_refl s
    · exact settles_put h rfl

theorem withMutDelta_settles {f : Value F → Value F × Int} (hf : Priced f) :
    Settles (s.bill now key (.withMutDelta f)) s (s.withMutDelta now tick key f).2 := by
  unfold bill withMutDelta
  cases h : s.map.lookup key with
  | none => exact settles_refl s
  | some e =>
    dsimp only
    by_cases hexp : e.isExpired now
    · rw [if_pos hexp, if_pos hexp]
      exact settles_drop h
    · rw [if_neg hexp, if_neg hexp]
      -- the closure's value takes the old one's place, and goes too if it is empty
      let e' : Entry F := ⟨(f e.value).1, e.expiresAt, tick⟩
      let s' : Shard F := ⟨s.map.insert key e', addDelta s.bytesUsed (f e.value).2⟩
      have hedit : Settles (deltaUpdates (f e.value).2) s s' := by
        refine ⟨(foldl_deltaUpdates _ _).symm, foldlM_deltaUpdates ?_⟩
        have hinsert := storedBytes_insert s key e' s'.bytesUsed
        rw [h, Option.elim_some] at hinsert
        have hprice := hf e.value
        have hsize : s'.storedBytes + entrySize key e.value =
            s.storedBytes + entrySize key (f e.value).1 := hinsert
        unfold entrySize at hsize
        omega
      by_cases hempty : (f e.value).1.isEmptyCollection
      · have hlookup : s'.map.lookup key = some e' := Finmap.lookup_insert s.map
        have hgone := settles_drop hlookup
        rw [if_pos hempty, if_pos hempty]
        refine ⟨?_, ?_⟩
        · rw [List.foldl_append, ← hedit.counter]
          exact hgone.counter
        · rw [List.foldlM_append, hedit.balance]
          exact hgone.balance
      · rw [if_neg hempty, if_neg hempty, List.append_nil]
        exact hedit

theorem expireAt_settles (deadline : Nat) : Settles [] s (s.expireAt now key deadline).2 := by
  unfold expireAt
  cases h : s.map.lookup key with
  | none => exact settles_refl s
  | some e =>
    dsimp only
    split
    · exact settles_refl s
    · exact settles_put h rfl

theorem persist_settles : Settles [] s (s.persist now key).2 := by
  unfold persist
  cases h : s.map.lookup key with
  | none => exact settles_refl s
  | some e =>
    dsimp only
    split
    · exact settles_put h rfl
    · exact settles_refl s

theorem removeExpired_settles : Settles [.sub (s.expiredBytes now)] s (s.removeExpired now).2 where
  counter := rfl
  balance := by
    have hsplit := HashMap.total_retain (fun k e => entrySize k e.value)
      (fun _ e => !e.isExpired now) s.map
    simp only [Bool.not_not] at hsplit
    have hstored : s.storedBytes = (s.removeExpired now).2.storedBytes + s.expiredBytes now :=
      hsplit.symm
    rw [hstored]
    exact (bind_pure _).trans (CounterUpdate.post_sub _ _)

theorem clear_settles : Settles [.reset] s s.clear := ⟨rfl, rfl⟩

end Shard

theorem Store.update_settles {st : Store F} {k : Bytes} {s : Shard F} {bill : List CounterUpdate}
    (hbill : Settles bill (st.shardFor k) s) :
    Settles bill (st.shardFor k) (update st.shards (shardIndex k) s (shardIndex k)) := by
  rwa [update_self]

theorem KeyOp.exec_settles {op : KeyOp F} (hop : op.IsPriced) (now : Nat) (k : Bytes)
    (st : Store F) :
    Settles ((st.shardFor k).bill now k op) (st.shardFor k) ((op.exec now k st).2.shardFor k) := by
  cases op with
  | get => exact Store.update_settles (Shard.get_settles _ k now st.tick)
  | set value => exact Store.update_settles (Shard.set_settles _ k now st.tick value)
  | del => exact Store.update_settles (Shard.del_settles _ k now)
  | existsKey | withRef => exact Store.update_settles (Shard.withRef_settles _ k now st.tick)
  | withMutDelta f => exact Store.update_settles (Shard.withMutDelta_settles _ k now st.tick hop)
  | expireAt deadline => exact Store.update_settles (Shard.expireAt_settles _ k now deadline)
  | persist => exact Store.update_settles (Shard.persist_settles _ k now)
  | ttl => exact Shard.settles_refl _

theorem KeyOp.exec_shards (op : KeyOp F) (now : Nat) (k : Bytes) (st : Store F)
    {i : Fin shardCount} (hi : i ≠ shardIndex k) : (op.exec now k st).2.shards i = st.shards i := by
  cases op with
  | ttl => rfl
  | _ => exact update_of_ne hi _ _

end RocketMem
