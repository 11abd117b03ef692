import Mathlib.Algebra.BigOperators.Group.Finset.Basic
import RocketMem.Framework.HashMap

namespace RocketMem

open Finmap Multiset

namespace HashMap

variable {K V : Type} (w : K → V → Nat)

/-- The sum of a weight over the entries of a map. -/
def total (m : HashMap K V) : Nat := (m.entries.map fun e => w e.1 e.2).sum

@[simp] theorem total_empty : total w (∅ : HashMap K V) = 0 := rfl

theorem total_retain (p : K → V → Bool) (m : HashMap K V) :
    total w (retain p m) + total w (retain (fun k v => !p k v) m) = total w m := by
  have hsplit := filter_add_not (fun e : Sigma fun _ : K => V => p e.1 e.2 = true) m.entries
  unfold total retain
  rw [← sum_add, ← map_add]
  simp only [Bool.not_eq_true', ← Bool.not_eq_true, hsplit]

variable [DecidableEq K]

theorem total_insert_of_notMem {m : HashMap K V} {k : K} (h : k ∉ m) (v : V) :
    total w (m.insert k v) = w k v + total w m := by
  unfold total
  rw [entries_insert_of_notMem h, map_cons, sum_cons]

theorem total_erase (m : HashMap K V) (k : K) :
    total w m = (m.lookup k).elim 0 (w k) + total w (m.erase k) := by
  cases hk : m.lookup k with
  | none =>
    rw [erase_of_lookup_eq_none hk, Option.elim_none, Nat.zero_add]
  | some v =>
    have hback : (m.erase k).insert k v = m := by
      apply ext_lookup
      intro k'
      by_cases heq : k' = k
      · rw [heq, lookup_insert, hk]
      · rw [lookup_insert_of_ne _ heq, lookup_erase_ne heq]
    have hinsert := total_insert_of_notMem w (notMem_erase_self (a := k) (s := m)) v
    rwa [hback] at hinsert

theorem total_insert (m : HashMap K V) (k : K) (v : V) :
    total w (m.insert k v) = w k v + total w (m.erase k) := by
  have herased : (m.insert k v).erase k = m.erase k := by
    apply ext_lookup
    intro k'
    by_cases heq : k' = k
    · rw [heq, lookup_erase, lookup_erase]
    · rw [lookup_erase_ne heq, lookup_erase_ne heq, lookup_insert_of_ne _ heq]
  rw [total_erase w (m.insert k v) k, lookup_insert, herased]
  rfl

theorem total_eq_sum (m : HashMap K V) : total w m = ∑ k ∈ m.keys, (m.lookup k).elim 0 (w k) := by
  have hentries : ∀ e ∈ m.entries, w e.1 e.2 = (m.lookup e.1).elim 0 (w e.1) := by
    intro e he
    have hlookup : m.lookup e.1 = some e.2 := Finmap.lookup_eq_some_iff.mpr he
    rw [hlookup, Option.elim_some]
  unfold total
  rw [map_congr rfl hentries]
  exact congrArg Multiset.sum (map_map (fun k => (m.lookup k).elim 0 (w k)) Sigma.fst
    m.entries).symm

theorem total_congr {W : Type} {w : K → V → Nat} {w' : K → W → Nat} {m : HashMap K V}
    {m' : HashMap K W} (h : ∀ k, (m.lookup k).elim 0 (w k) = (m'.lookup k).elim 0 (w' k)) :
    total w m = total w' m' := by
  have habsent {U : Type} (u : K → U → Nat) (n : HashMap K U) (ks : Finset K) (hks : n.keys ⊆ ks) :
      total u n = ∑ k ∈ ks, (n.lookup k).elim 0 (u k) := by
    rw [total_eq_sum]
    refine Finset.sum_subset hks fun k _ hk => ?_
    rw [Finmap.lookup_eq_none.mpr fun hmem => hk (Finmap.mem_keys.mpr hmem), Option.elim_none]
  rw [habsent w m (m.keys ∪ m'.keys) Finset.subset_union_left,
    habsent w' m' (m.keys ∪ m'.keys) Finset.subset_union_right]
  exact Finset.sum_congr rfl fun k _ => h k

end HashMap

end RocketMem
