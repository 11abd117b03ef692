import Mathlib.Algebra.BigOperators.Fin
import RocketMem.Engine.Snapshot

namespace RocketMem

open List BinCodec

variable {F : Type} [F64 F]

section

variable {V : Type} (env : Env) (m : HashMap Bytes V)

theorem keys_val_eq : m.keys.val = m.entries.map Sigma.fst := rfl

theorem filterMap_lookup (s : Multiset (Sigma fun _ : Bytes => V))
    (h : ∀ e ∈ s, m.lookup e.1 = some e.2) :
    (s.map Sigma.fst).filterMap (fun k => (m.lookup k).map fun v => (k, v)) =
      s.map fun e => (e.1, e.2) := by
  induction s using Multiset.induction_on with
  | empty => rfl
  | cons e s ih =>
    have he := h e (Multiset.mem_cons_self e s)
    have hs := ih fun x hx => h x (Multiset.mem_cons_of_mem hx)
    have hsome : (m.lookup e.1).map (fun v => (e.1, v)) = some (e.1, e.2) := by rw [he]; rfl
    rw [Multiset.map_cons, Multiset.filterMap_cons_some
      (fun k => (m.lookup k).map fun v => (k, v)) e.1 _ hsome, hs, Multiset.map_cons]

theorem iter_entries : (((env.iter m.keys).filterMap fun k => (m.lookup k).map fun v => (k, v) :
    List (Bytes × V)) : Multiset (Bytes × V)) = m.entries.map fun e => (e.1, e.2) := by
  rw [← Multiset.filterMap_coe, env.iter_eq, keys_val_eq]
  exact filterMap_lookup m m.entries fun e he => Finmap.lookup_eq_some_iff.mpr he

end

def Value.imageSize : Value F → Nat
  | .string b => 4 + (8 + b.length)
  | .list l => 4 + (8 + (l.map fun b => 8 + b.length).sum)
  | .hash m => 4 + (8 + (m.entries.map fun e => (8 + e.1.length) + (8 + e.2.length)).sum)
  | .set s => 4 + (8 + ∑ b ∈ s, (8 + b.length))
  | .sortedSet z => 4 + (8 + ∑ p ∈ z.byScore, ((8 + (ofLex p).2.length) + 8))

def Entry.imageSize (key : Bytes) (e : Entry F) : Nat :=
  (8 + key.length) + (e.value.imageSize + if e.expiresAt.isSome then 9 else 1)

def Store.imageSize (now : Nat) (st : Store F) : Nat :=
  16 + ∑ i, (((st.shards i).live now).entries.map fun e => e.2.imageSize e.1).sum

theorem sum_iter_entries {V : Type} (env : Env) (m : HashMap Bytes V) (g : Bytes × V → Nat) :
    (((env.iter m.keys).filterMap fun k => (m.lookup k).map fun v => (k, v)).map g).sum =
      (m.entries.map fun e => g (e.1, e.2)).sum := by
  have h := congrArg (fun s => (Multiset.map g s).sum) (iter_entries env m)
  simpa [Multiset.map_map] using h

theorem sum_iter (env : Env) (s : Finset Bytes) (g : Bytes → Nat) :
    ((env.iter s).map g).sum = ∑ b ∈ s, g b := by
  have h := congrArg (fun t => (Multiset.map g t).sum) (env.iter_eq s)
  simpa only [Multiset.map_coe, Multiset.sum_coe, Finset.sum_eq_multiset_sum] using h

theorem sum_sort {α : Type} [LinearOrder α] (s : Finset α) (g : α → Nat) :
    ((s.sort (· ≤ ·)).map g).sum = ∑ a ∈ s, g a := by
  have h := congrArg (fun t => (Multiset.map g t).sum) (s.sort_eq (· ≤ ·))
  simpa only [Multiset.map_coe, Multiset.sum_coe, Finset.sum_eq_multiset_sum] using h

theorem SortedSet.pairs_eq (z : SortedSet F) :
    (z.membersAscending.filterMap fun m => (z.score m).map fun s => (m, s)) =
      (z.byScore.sort (· ≤ ·)).map fun p => ((ofLex p).2, (ofLex p).1) := by
  rw [membersAscending, filterMap_map, ← filterMap_eq_map]
  refine filterMap_congr fun p hp => ?_
  have hmem : toLex ((ofLex p).1, (ofLex p).2) ∈ z.byScore := (Finset.mem_sort _).mp hp
  have hscore : z.score (ofLex p).2 = some (ofLex p).1 := (z.agree _ _).mp hmem
  simp [hscore]

theorem encodeValue_length (env : Env) (v : Value F) :
    (encodeValue (v.toSerializable env)).length = v.imageSize := by
  cases v with
  | string b => simp [Value.toSerializable, encodeValue, Value.imageSize, encode_bytes_length]
  | list l =>
    simp [Value.toSerializable, encodeValue, Value.imageSize, encode_list_length,
      encode_bytes_length]
  | hash m =>
    simp only [Value.toSerializable, encodeValue, Value.imageSize, length_append,
      length_leBytes, fieldsCodec, encode_list_length, encode_pair_length,
      encode_bytes_length, sum_iter_entries]
  | set s =>
    simp only [Value.toSerializable, encodeValue, Value.imageSize, length_append,
      length_leBytes, encode_list_length, encode_bytes_length, sum_iter]
  | sortedSet z =>
    have hscore (x : F) : ((scoreCodec (F := F)).encode x).length = 8 := length_leBytes _ _
    simp only [Value.toSerializable, encodeValue, Value.imageSize, length_append,
      length_leBytes, scoresCodec, encode_list_length, encode_pair_length,
      encode_bytes_length, hscore, SortedSet.pairs_eq, map_map]
    exact congrArg (fun n => 4 + (8 + n)) (sum_sort z.byScore fun p => 8 + (ofLex p).2.length + 8)

theorem serializeEntry_length (env : Env) (k : Bytes) (e : Entry F) :
    (entryCodec.encode (serializeEntry env (k, e.value, e.expiresAt))).length = e.imageSize k := by
  have hoption (o : Option Int) : ((option .int64).encode o).length =
      if o.isSome then 9 else 1 := by
    cases o with
    | none => rfl
    | some i => exact congrArg (· + 1) (encode_int64_length i)
  simp only [entryCodec, serializeEntry, encode_pair_length, encode_bytes_length,
    hoption, Option.isSome_map, Entry.imageSize]
  rw [← encodeValue_length env e.value]
  rfl

theorem Env.mem_iter (env : Env) (s : Finset Bytes) (k : Bytes) : k ∈ env.iter s ↔ k ∈ s := by
  rw [← Multiset.mem_coe, env.iter_eq, Finset.mem_val]

theorem Shard.lookup_live (now : Nat) (s : Shard F) (k : Bytes) :
    (s.live now).lookup k = (s.map.lookup k).filter fun e => !e.isExpired now :=
  HashMap.lookup_retain _ _ k

theorem Shard.entries_eq (env : Env) (s : Shard F) :
    s.entries env =
      ((env.iter (s.live env.clock.mono).keys).filterMap fun k =>
        ((s.live env.clock.mono).lookup k).map fun e => (k, e)).map
          fun p => (p.1, p.2.value, p.2.expiresAt) := by
  rw [entries, map_filterMap]
  refine filterMap_congr fun k hk => ?_
  have hmem : k ∈ s.live env.clock.mono := Finmap.mem_keys.mp ((env.mem_iter _ k).mp hk)
  obtain ⟨e, he⟩ := Finmap.mem_iff.mp hmem
  have hlookup : s.map.lookup k = some e := by
    rw [lookup_live, Option.filter_eq_some_iff] at he
    exact he.1
  rw [he, hlookup]
  rfl

/-- However the maps are walked, an image has one length. -/
theorem serialize_length (env : Env) (st : Store F) (offset : Nat) :
    (serialize env st offset).length = st.imageSize env.clock.mono := by
  have hshard (i : Fin shardCount) :
      (((st.shards i).entries env).map fun e =>
        (entryCodec.encode (serializeEntry env e)).length).sum =
      (((st.shards i).live env.clock.mono).entries.map fun e => e.2.imageSize e.1).sum := by
    rw [Shard.entries_eq, map_map,
      ← sum_iter_entries env ((st.shards i).live env.clock.mono) fun p => p.2.imageSize p.1]
    congr 1
    refine map_congr_left fun p _ => ?_
    exact serializeEntry_length env p.1 p.2
  rw [serialize, length_append, length_leBytes, encode_list_length, map_map,
    Store.snapshotEntries, map_flatMap, flatMap_def, sum_flatten, map_map]
  simp only [Function.comp_def, hshard, Store.imageSize]
  rw [Fin.sum_univ_def]
  omega

end RocketMem
