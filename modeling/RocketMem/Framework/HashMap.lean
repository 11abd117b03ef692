import Mathlib.Data.Finmap

namespace RocketMem

open Multiset

/-- A map without an order: where one is walked, the walk is given. -/
abbrev HashMap (K V : Type) := Finmap fun _ : K => V

namespace HashMap

variable {K V : Type}

theorem nodupKeys_filter (m : Multiset (Sigma fun _ : K => V)) (hm : m.NodupKeys)
    (p : (Sigma fun _ : K => V) → Prop) [DecidablePred p] : (m.filter p).NodupKeys := by
  rw [← nodup_keys] at hm ⊢
  exact nodup_of_le (map_le_map (filter_le p m)) hm

def retain (p : K → V → Bool) (m : HashMap K V) : HashMap K V where
  entries := m.entries.filter fun e => p e.1 e.2 = true
  nodupKeys := nodupKeys_filter m.entries m.nodupKeys _

theorem lookup_retain [DecidableEq K] (p : K → V → Bool) (m : HashMap K V) (k : K) :
    (retain p m).lookup k = (m.lookup k).filter (p k) := by
  ext v
  rw [Finmap.lookup_eq_some_iff, Option.filter_eq_some_iff, Finmap.lookup_eq_some_iff]
  exact mem_filter

theorem mem_of_mem_retain [DecidableEq K] {p : K → V → Bool} {m : HashMap K V} {k : K}
    (h : k ∈ retain p m) : k ∈ m := by
  obtain ⟨v, hv⟩ := Finmap.mem_iff.mp h
  rw [lookup_retain, Option.filter_eq_some_iff] at hv
  exact Finmap.mem_iff.mpr ⟨v, hv.1⟩

theorem erase_of_lookup_eq_none [DecidableEq K] {m : HashMap K V} {k : K}
    (h : m.lookup k = none) : m.erase k = m := by
  apply Finmap.ext_lookup
  intro k'
  by_cases heq : k' = k
  · rw [heq, Finmap.lookup_erase, h]
  · exact Finmap.lookup_erase_ne heq

section

variable {W : Type} (f : K → V → Option W)

def mapEntry (e : Sigma fun _ : K => V) : Option (Sigma fun _ : K => W) :=
  (f e.1 e.2).map (Sigma.mk e.1)

theorem keys_filterMap_le (s : Multiset (Sigma fun _ : K => V)) :
    (s.filterMap (mapEntry f)).map Sigma.fst ≤ s.map Sigma.fst := by
  induction s using Multiset.induction_on with
  | empty => exact le_rfl
  | cons e s ih =>
    cases he : f e.1 e.2 with
    | none =>
      have hnone : mapEntry f e = none := by rw [mapEntry, he]; rfl
      rw [filterMap_cons_none _ _ hnone, map_cons]
      exact ih.trans (le_cons_self _ _)
    | some w =>
      have hsome : mapEntry f e = some ⟨e.1, w⟩ := by rw [mapEntry, he]; rfl
      rw [filterMap_cons_some _ _ _ hsome, map_cons, map_cons]
      exact cons_le_cons _ ih

def filterMapValues (m : HashMap K V) : HashMap K W where
  entries := m.entries.filterMap (mapEntry f)
  nodupKeys := by
    rw [← nodup_keys]
    exact nodup_of_le (keys_filterMap_le f m.entries) (Multiset.nodup_keys.mpr m.nodupKeys)

theorem lookup_filterMapValues [DecidableEq K] (m : HashMap K V) (k : K) :
    (filterMapValues f m).lookup k = (m.lookup k).bind (f k) := by
  ext w
  rw [Finmap.lookup_eq_some_iff, Option.bind_eq_some_iff]
  constructor
  · intro h
    obtain ⟨⟨k', v⟩, hmem, hf⟩ := (mem_filterMap _ _).mp h
    obtain ⟨w', hw, heq⟩ := Option.map_eq_some_iff.mp hf
    cases heq
    exact ⟨v, Finmap.lookup_eq_some_iff.mpr hmem, hw⟩
  · rintro ⟨v, hv, hw⟩
    refine (mem_filterMap _ _).mpr ⟨⟨k, v⟩, Finmap.lookup_eq_some_iff.mp hv, ?_⟩
    rw [mapEntry, hw]
    rfl

end

theorem look_foldl {σ P : Type} [DecidableEq K] (look : σ → K → V) (put : σ → P → σ) (key : P → K)
    (value : P → V) {items : List P}
    (hput : ∀ p ∈ items, ∀ s k, look (put s p) k = if k = key p then value p else look s k)
    (hnodup : (items.map key).Nodup) (s : σ) (k : K) :
    (∀ p ∈ items, key p = k → look (items.foldl put s) k = value p) ∧
      (k ∉ items.map key → look (items.foldl put s) k = look s k) := by
  induction items generalizing s with
  | nil => exact ⟨nofun, fun _ => rfl⟩
  | cons p items ih =>
    obtain ⟨hfresh, hrest⟩ := List.nodup_cons.mp hnodup
    have hhead := hput p List.mem_cons_self s k
    obtain ⟨hin, hout⟩ := ih (fun q hq => hput q (List.mem_cons_of_mem p hq)) hrest (put s p)
    constructor
    · intro q hq hk
      rcases List.mem_cons.mp hq with rfl | hq
      · rw [List.foldl_cons, hout (hk ▸ hfresh), hhead, if_pos hk.symm]
      · exact hin q hq hk
    · intro hk
      rw [List.map_cons, List.mem_cons, not_or] at hk
      rw [List.foldl_cons, hout hk.2, hhead, if_neg hk.1]

end HashMap

end RocketMem
