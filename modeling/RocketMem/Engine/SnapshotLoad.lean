import RocketMem.Engine.PlainProgram
import RocketMem.Engine.SnapshotProof

namespace RocketMem

open List Finmap Function

variable {F : Type} [F64 F]

section

open BinCodec

theorem sized_scoreCodec : Sized (scoreCodec (F := F)) where
  pos x := by
    have : ((scoreCodec (F := F)).encode x).length = 8 := length_leBytes _ _
    omega
  valid x _ := F64.toBits_lt x

theorem sized_valueCodec : Sized (valueCodec (F := F)) where
  pos v := by cases v <;> simp [valueCodec, encodeValue]
  valid v h := by
    have htag {b : Bytes} (n : Nat) (hb : (leBytes 4 n ++ b).length < 256 ^ 8) :
        b.length < 256 ^ 8 := by
      rw [length_append] at hb
      omega
    cases v with
    | string b => exact Sized.bytes.valid b (htag _ h)
    | list l => exact Sized.bytes.list.valid l (htag _ h)
    | hash m => exact (Sized.bytes.pair Sized.bytes).list.valid m (htag _ h)
    | set s => exact Sized.bytes.list.valid s (htag _ h)
    | sortedSet z => exact (Sized.bytes.pair sized_scoreCodec).list.valid z (htag _ h)

theorem unixMsFromInstant_inI64 (c : Clock) (deadline : Nat) :
    InI64 (unixMsFromInstant c deadline) := by
  unfold unixMsFromInstant
  split <;> exact wrapI64_inI64 _

theorem entryCodec_pos (e : Bytes × SerializableValue F × Option Int) :
    0 < (entryCodec.encode e).length := by
  have := Sized.bytes.pos e.1
  rw [entryCodec, encode_pair_length]
  omega

def snapshotOf (env : Env) (toUnix : Nat → Int) (offset : Nat)
    (entries : List (Bytes × Value F × Option Nat)) : Bytes :=
  leBytes 8 offset ++ (BinCodec.list entryCodec).encode
    (entries.map fun e => (e.1, e.2.1.toSerializable env, e.2.2.map toUnix))

theorem header_snapshotOf (env : Env) (toUnix : Nat → Int) {offset : Nat}
    (hoffset : offset < 256 ^ 8) (entries : List (Bytes × Value F × Option Nat)) :
    ofLeBytes ((snapshotOf env toUnix offset entries).take 8) = offset := by
  rw [snapshotOf, take_left' (length_leBytes 8 offset), ofLeBytes_leBytes 8 offset hoffset]

theorem snapshotOf_decodes (env : Env) {toUnix : Nat → Int} (hunix : ∀ d, InI64 (toUnix d))
    (entries : List (Bytes × Value F × Option Nat)) {offset : Nat}
    (hsize : ((snapshotOf env toUnix offset entries).length : Int) ≤ i64Max) :
    ¬ (snapshotOf env toUnix offset entries).length < 8 ∧
      (BinCodec.list entryCodec).decode ((snapshotOf env toUnix offset entries).drop 8) =
        some (entries.map fun e => (e.1, e.2.1.toSerializable env, e.2.2.map toUnix), []) := by
  have hlen : (snapshotOf env toUnix offset entries).length = 8 + ((BinCodec.list entryCodec).encode
      (entries.map fun e => (e.1, e.2.1.toSerializable env, e.2.2.map toUnix))).length := by
    rw [snapshotOf, length_append, length_leBytes]
  have hdrop : (snapshotOf env toUnix offset entries).drop 8 = (BinCodec.list entryCodec).encode
      (entries.map fun e => (e.1, e.2.1.toSerializable env, e.2.2.map toUnix)) :=
    drop_left' (length_leBytes 8 offset)
  refine ⟨by omega, ?_⟩
  rw [hdrop]
  refine (congrArg _ (append_nil _).symm).trans ((BinCodec.list entryCodec).decode_encode _ []
    (list_valid entryCodec_pos (by unfold i64Max at hsize; omega) fun e he hfits => ?_))
  obtain ⟨⟨k, v, deadline⟩, -, rfl⟩ := List.mem_map.mp he
  rw [entryCodec, encode_pair_length, encode_pair_length] at hfits
  dsimp only at hfits
  refine ⟨Sized.bytes.valid k (by omega), sized_valueCodec.valid (v.toSerializable env) (by omega),
    fun ms hms => ?_⟩
  obtain ⟨d, -, rfl⟩ := Option.mem_map.mp hms
  exact hunix d

end

theorem foldl_insert_iter (env : Env) (m : HashMap Bytes Bytes) :
    ((env.iter m.keys).filterMap fun f => (m.lookup f).map fun v => (f, v)).foldl
      (fun acc p => acc.insert p.1 p.2) ∅ = m := by
  set pairs := (env.iter m.keys).filterMap fun f => (m.lookup f).map fun v => (f, v) with hpairs
  have hmem (p : Bytes × Bytes) : p ∈ pairs ↔ m.lookup p.1 = some p.2 := by
    have := congrArg (p ∈ ·) (iter_entries env m)
    simp only [Multiset.mem_coe, Multiset.mem_map, eq_iff_iff] at this
    rw [hpairs, this, Finmap.lookup_eq_some_iff]
    constructor
    · rintro ⟨e, he, rfl⟩
      exact he
    · exact fun h => ⟨⟨p.1, p.2⟩, h, rfl⟩
  have hnodup : (pairs.map Prod.fst).Nodup := by
    have := congrArg (Multiset.map Prod.fst) (iter_entries env m)
    rw [Multiset.map_map, ← hpairs] at this
    rw [← Multiset.coe_nodup, ← Multiset.map_coe, this]
    exact m.keys.nodup
  refine ext_lookup fun k => ?_
  obtain ⟨hin, hout⟩ := HashMap.look_foldl (fun m : HashMap Bytes Bytes => m.lookup)
    (fun acc (p : Bytes × Bytes) => acc.insert p.1 p.2) Prod.fst (fun p => some p.2)
    (fun p _ acc k => by
      split
      · next hk => rw [hk, lookup_insert]
      · next hk => rw [lookup_insert_of_ne _ hk]) hnodup ∅ k
  cases hk : m.lookup k with
  | none =>
    refine (hout fun hmemk => ?_).trans (lookup_empty _)
    obtain ⟨p, hp, rfl⟩ := List.mem_map.mp hmemk
    rw [(hmem p).mp hp] at hk
    cases hk
  | some v => exact hin (k, v) ((hmem _).mpr hk) rfl

theorem SortedSet.ext_score {z z' : SortedSet F} (h : ∀ m, z.score m = z'.score m) : z = z' := by
  have hscores : z.scores = z'.scores := ext_lookup h
  have hby : z.byScore = z'.byScore := by
    ext p
    have := z.agree (ofLex p).1 (ofLex p).2
    rw [hscores, ← z'.agree] at this
    exact this
  cases z
  cases z'
  cases hscores
  cases hby
  rfl

theorem SortedSet.score_insert (z : SortedSet F) (member m : Bytes) (s : F) :
    (z.insert member s).score m = if m = member then some s else z.score m := by
  split
  · next hm => rw [hm, score, insert, lookup_insert]
  · next hm => rw [score, insert, lookup_insert_of_ne _ hm, score]

theorem SortedSet.foldl_insert_pairs (z : SortedSet F) :
    (z.membersAscending.filterMap fun m => (z.score m).map fun s => (m, s)).foldl
      (fun acc p => acc.insert p.1 p.2) new = z := by
  rw [pairs_eq]
  set pairs := (z.byScore.sort (· ≤ ·)).map fun p => ((ofLex p).2, (ofLex p).1) with hpairs
  have hmem (p : Bytes × F) : p ∈ pairs ↔ z.score p.1 = some p.2 := by
    rw [hpairs, List.mem_map, score, ← z.agree]
    constructor
    · rintro ⟨q, hq, rfl⟩
      exact (Finset.mem_sort _).mp hq
    · exact fun h => ⟨_, (Finset.mem_sort _).mpr h, rfl⟩
  have hnodup : (pairs.map Prod.fst).Nodup := by
    rw [hpairs, List.map_map]
    refine (z.byScore.sort_nodup _).map_on fun p hp q hq hpq => ?_
    have hp' := (z.agree (ofLex p).1 (ofLex p).2).mp ((Finset.mem_sort _).mp hp)
    have hq' := (z.agree (ofLex q).1 (ofLex q).2).mp ((Finset.mem_sort _).mp hq)
    have hmember : (ofLex p).2 = (ofLex q).2 := hpq
    rw [hmember, hq'] at hp'
    exact Prod.ext (Option.some.inj hp').symm hmember
  refine ext_score fun m => ?_
  obtain ⟨hin, hout⟩ := HashMap.look_foldl score
    (fun acc (p : Bytes × F) => acc.insert p.1 p.2) Prod.fst (fun p => some p.2)
    (fun p _ acc m => acc.score_insert p.1 m p.2) hnodup new m
  cases hm : z.score m with
  | none =>
    refine (hout fun hmemm => ?_).trans (lookup_empty _)
    obtain ⟨p, hp, rfl⟩ := List.mem_map.mp hmemm
    rw [(hmem p).mp hp] at hm
    cases hm
  | some s => exact hin (m, s) ((hmem _).mpr hm) rfl

theorem Value.toValue_toSerializable (env : Env) (v : Value F) :
    (v.toSerializable env).toValue = v := by
  cases v with
  | string b => rfl
  | list l => rfl
  | hash m => exact congrArg hash (foldl_insert_iter env m)
  | set s =>
    refine congrArg set (Finset.ext fun b => ?_)
    rw [List.mem_toFinset, env.mem_iter]
  | sortedSet z => exact congrArg sortedSet z.foldl_insert_pairs

def Slot.Bounded (s : Slot F) : Prop := ∀ v t, s = some (v, some t) → (t : Int) ≤ i64Max

structure Keyspace.Storable (c : Clock) (ks : Keyspace F) : Prop where
  sound : ks.Sound c
  bounded : ∀ k, (ks k).Bounded

/-- The entries of a walk over the store stand for what a keyspace has under the keys in `K`. -/
structure Captures (c : Clock) (K : Bytes → Prop) (ks : Keyspace F)
    (entries : List (Bytes × Value F × Option Nat)) : Prop where
  nodup : (entries.map Prod.fst).Nodup
  keys : ∀ k ∈ entries.map Prod.fst, K k
  slot : ∀ e ∈ entries, ks e.1 = some (e.2.1, e.2.2.map (c.boot + ·))
  complete : ∀ k, K k → k ∉ entries.map Prod.fst → ks k = none

section

variable {c : Clock} {K K' : Bytes → Prop} {ks ks' : Keyspace F}
  {entries entries' : List (Bytes × Value F × Option Nat)} (env : Env)

theorem Captures.nil (h : ∀ k, ¬ K k) : Captures c K ks [] :=
  ⟨nodup_nil, nofun, nofun, fun k hk => absurd hk (h k)⟩

theorem Captures.append (h : Captures c K ks entries) (h' : Captures c K' ks entries')
    (hdisjoint : ∀ k, K k → ¬ K' k) :
    Captures c (fun k => K k ∨ K' k) ks (entries ++ entries') where
  nodup := by
    rw [map_append, nodup_append']
    exact ⟨h.nodup, h'.nodup, fun k hk hk' => hdisjoint k (h.keys k hk) (h'.keys k hk')⟩
  keys k hk := by
    rw [map_append, mem_append] at hk
    exact hk.imp (h.keys k) (h'.keys k)
  slot e he := (mem_append.mp he).elim (h.slot e) (h'.slot e)
  complete k hk hnot := by
    rw [map_append, mem_append, not_or] at hnot
    exact hk.elim (fun hk => h.complete k hk hnot.1) fun hk => h'.complete k hk hnot.2

theorem Captures.congr (h : Captures c K ks entries) (hK : ∀ k, K' k ↔ K k)
    (hks : ∀ k, K k → ks k = ks' k) : Captures c K' ks' entries where
  nodup := h.nodup
  keys k hk := (hK k).mpr (h.keys k hk)
  slot e he := (hks e.1 (h.keys e.1 (mem_map_of_mem he))).symm.trans (h.slot e he)
  complete k hk hnot := (hks k ((hK k).mp hk)).symm.trans (h.complete k ((hK k).mp hk) hnot)

theorem Env.nodup_iter (s : Finset Bytes) : (env.iter s).Nodup := by
  rw [← Multiset.coe_nodup, env.iter_eq]
  exact s.nodup

theorem Shard.mem_entries (s : Shard F) (e : Bytes × Value F × Option Nat) :
    e ∈ s.entries env ↔
      ∃ entry, (s.live env.clock.mono).lookup e.1 = some entry ∧
        e.2 = (entry.value, entry.expiresAt) := by
  rw [s.entries_eq]
  simp only [List.mem_map, List.mem_filterMap, Option.map_eq_some_iff, env.mem_iter]
  constructor
  · rintro ⟨_, ⟨k, -, entry, hentry, rfl⟩, rfl⟩
    exact ⟨entry, hentry, rfl⟩
  · rintro ⟨entry, hentry, he⟩
    refine ⟨(e.1, entry), ⟨e.1, ?_, entry, hentry, rfl⟩, Prod.ext rfl he.symm⟩
    exact Finmap.mem_keys.mpr (Finmap.mem_iff.mpr ⟨entry, hentry⟩)

theorem Shard.nodup_entries (s : Shard F) : ((s.entries env).map Prod.fst).Nodup := by
  have hsub : ((s.entries env).map Prod.fst).Sublist (env.iter (s.keys env.clock.mono)) := by
    rw [entries, map_filterMap]
    have hfst : (fun k => ((s.map.lookup k).map fun e => (k, e.value, e.expiresAt)).map Prod.fst) =
        fun k => (s.map.lookup k).bind fun _ => some k := by
      funext k
      cases s.map.lookup k <;> rfl
    rw [hfst]
    induction env.iter (s.keys env.clock.mono) with
    | nil => exact List.Sublist.refl _
    | cons k ks ih =>
      cases hk : s.map.lookup k with
      | none =>
        rw [filterMap_cons_none (by rw [hk]; rfl)]
        exact ih.cons k
      | some e =>
        rw [filterMap_cons_some (by rw [hk]; rfl)]
        exact ih.cons_cons k
  exact hsub.nodup (env.nodup_iter _)

theorem Shard.slot_eq_live (s : Shard F) (k : Bytes) :
    s.slot c k =
      ((s.live c.mono).lookup k).map fun e => (e.value, e.expiresAt.map (c.boot + ·)) := by
  rw [s.lookup_live, slot]
  cases s.map.lookup k with
  | none => rfl
  | some e =>
    rw [Option.bind_some]
    by_cases he : e.isExpired c.mono = true
    · simp [Entry.slot_of_expired c he, Option.filter, he]
    · simp [Entry.slot_of_live c he, Option.filter, he]

theorem Store.captures_shard (st : Store F) (j : Fin shardCount) :
    Captures env.clock (fun k => shardIndex k = j) (st.live env.clock)
      ((st.shards j).entries env) := by
  have hkeys : ∀ k ∈ ((st.shards j).entries env).map Prod.fst, shardIndex k = j := by
    intro k hk
    obtain ⟨e, he, rfl⟩ := List.mem_map.mp hk
    obtain ⟨entry, hentry, -⟩ := ((st.shards j).mem_entries env e).mp he
    rw [Shard.lookup_live, Option.filter_eq_some_iff] at hentry
    exact st.routed j e.1 (Finmap.mem_iff.mpr ⟨entry, hentry.1⟩)
  have hlive {k : Bytes} (hk : shardIndex k = j) :
      st.live env.clock k = (((st.shards j).live env.clock.mono).lookup k).map
        fun e => (e.value, e.expiresAt.map (env.clock.boot + ·)) := by
    rw [← hk]
    exact Shard.slot_eq_live _ k
  refine ⟨(st.shards j).nodup_entries env, hkeys, fun e he => ?_, fun k hk hnot => ?_⟩
  · obtain ⟨entry, hentry, heq⟩ := ((st.shards j).mem_entries env e).mp he
    rw [hlive (hkeys e.1 (mem_map_of_mem he)), hentry, heq]
    rfl
  · rw [hlive hk]
    cases hentry : ((st.shards j).live env.clock.mono).lookup k with
    | none => rfl
    | some entry =>
      refine absurd (List.mem_map.mpr ⟨(k, entry.value, entry.expiresAt), ?_, rfl⟩) hnot
      exact ((st.shards j).mem_entries env _).mpr ⟨entry, hentry, rfl⟩

theorem Store.captures_shards (st : Store F) {js : List (Fin shardCount)}
    (hjs : js.Nodup) :
    Captures env.clock (fun k => shardIndex k ∈ js) (st.live env.clock)
      (js.flatMap fun j => (st.shards j).entries env) := by
  induction js with
  | nil => exact .nil fun k => not_mem_nil
  | cons j js ih =>
    obtain ⟨hj, hjs⟩ := nodup_cons.mp hjs
    have happend := (st.captures_shard env j).append (ih hjs) fun k hk hk' => hj (hk ▸ hk')
    exact happend.congr (fun _ => mem_cons) fun _ _ => rfl

theorem Store.captures (st : Store F) :
    Captures env.clock (fun _ => True) (st.live env.clock) (st.snapshotEntries env) :=
  (st.captures_shards env (nodup_finRange shardCount)).congr (fun k => by simp) fun _ _ => rfl

end

variable {c : Clock} {ks : Keyspace F} {entries : List (Bytes × Value F × Option Nat)}

theorem unixMsFromInstant_of_le {deadline : Nat} (hd : c.mono ≤ deadline)
    (hmax : ((c.boot + deadline : Nat) : Int) ≤ i64Max) :
    unixMsFromInstant c deadline = (c.boot + deadline : Nat) := by
  have hwall := c.wall_le
  have hsum : (c.wall : Int) + ((deadline : Int) - c.mono) = (c.boot + deadline : Nat) := by
    unfold Clock.wall
    omega
  have hin {i : Int} (h0 : 0 ≤ i) (h : i ≤ i64Max) : InI64 i := ⟨by unfold i64Min; omega, h⟩
  have hleft : (deadline : Int) - c.mono ≤ i64Max := by omega
  rw [unixMsFromInstant, if_pos hd, wrapI64_of_inI64 (hin (Int.natCast_nonneg _) hwall),
    wrapI64_of_inI64 (hin (by omega) hleft), hsum,
    wrapI64_of_inI64 (hin (Int.natCast_nonneg _) hmax)]

theorem loadEntry_serializeEntry (env : Env) (hks : ks.Storable env.clock)
    {e : Bytes × Value F × Option Nat}
    (hslot : ks e.1 = some (e.2.1, e.2.2.map (env.clock.boot + ·))) :
    loadEntry env.clock (serializeEntry env e) = some e := by
  obtain ⟨k, v, _ | deadline⟩ := e
  · simp only [serializeEntry, loadEntry, Option.map_none, v.toValue_toSerializable env]
  · have hahead := ((hks.sound k v (some (env.clock.boot + deadline)) hslot).2 _ rfl).1
    have hle := hks.bounded k v (env.clock.boot + deadline) hslot
    unfold Clock.wall at hahead
    have hms : unixMsFromInstant env.clock deadline = (env.clock.boot + deadline : Nat) :=
      unixMsFromInstant_of_le (by omega) hle
    have hlate : ¬ ((env.clock.boot + deadline : Nat) : Int) ≤ (env.clock.wall : Int) := by
      unfold Clock.wall
      omega
    have hback :
        instantFromUnixMs env.clock ((env.clock.boot + deadline : Nat) : Int) = deadline := by
      unfold instantFromUnixMs Clock.wall
      omega
    simp only [serializeEntry, loadEntry, Option.map_some, hms, if_neg hlate, hback,
      v.toValue_toSerializable env]

theorem Store.live_set (st : Store F) (k : Bytes) (v : Value F) :
    (st.set k v).live c = update (st.live c) k (some (v, none)) :=
  (KeyOp.exec_live c k st (.set v)).2

theorem Store.live_insert_entry (st : Store F) (k : Bytes) (v : Value F) {deadline : Nat}
    (hd : c.mono < deadline) :
    ((st.set k v).expireAt c.mono k deadline).2.live c =
      update (st.live c) k (some (v, some (c.boot + deadline))) := by
  have h := (KeyOp.exec_live c k (st.set k v) (.expireAt deadline)).2
  have hnot : ¬ deadline ≤ c.mono := by omega
  simp only [KeyOp.onSlot, st.live_set, update_self, Option.bind_some, if_neg hnot,
    update_idem] at h
  exact h

theorem Store.live_new (tick : Nat) (k : Bytes) :
    ({ (new : Store F) with tick := tick }).live c k = none :=
  Shard.slot_of_lookup_none c _ k (lookup_empty k)

theorem Store.live_loadSnapshotEntries_apply (hnodup : (entries.map Prod.fst).Nodup)
    (hahead : ∀ e ∈ entries, ∀ d, e.2.2 = some d → c.mono < d) (st : Store F) (k : Bytes) :
    (∀ e ∈ entries, e.1 = k → (st.loadSnapshotEntries c.mono entries).live c k =
        some (e.2.1, e.2.2.map (c.boot + ·))) ∧
      (k ∉ entries.map Prod.fst → (st.loadSnapshotEntries c.mono entries).live c k = none) := by
  let put (st : Store F) (e : Bytes × Value F × Option Nat) : Store F :=
    e.2.2.elim (st.set e.1 e.2.1) fun deadline =>
      ((st.set e.1 e.2.1).expireAt c.mono e.1 deadline).2
  have hfold : st.loadSnapshotEntries c.mono entries =
      entries.foldl put { (new : Store F) with tick := st.tick } := by
    unfold loadSnapshotEntries
    congr 1
    funext st e
    obtain ⟨key, v, _ | deadline⟩ := e <;> rfl
  obtain ⟨hin, hout⟩ := HashMap.look_foldl (live c) put
    Prod.fst (fun e => some (e.2.1, e.2.2.map (c.boot + ·)))
    (fun e he st k => by
      obtain ⟨key, v, _ | deadline⟩ := e
      · exact (congrFun (st.live_set key v) k).trans (update_apply ..)
      · have hlater := hahead _ he deadline rfl
        exact (congrFun (st.live_insert_entry key v hlater) k).trans (update_apply ..))
    hnodup { (new : Store F) with tick := st.tick } k
  rw [hfold]
  exact ⟨hin, fun hk => (hout hk).trans (live_new st.tick k)⟩

theorem Store.live_loadSnapshotEntries (hcap : Captures c (fun _ => True) ks entries)
    (hks : ks.Sound c) (st : Store F) : (st.loadSnapshotEntries c.mono entries).live c = ks := by
  funext k
  have hahead : ∀ e ∈ entries, ∀ d, e.2.2 = some d → c.mono < d := by
    intro e he d hd
    have hslot := hcap.slot e he
    rw [hd] at hslot
    have hlater := ((hks e.1 e.2.1 (some (c.boot + d)) hslot).2 _ rfl).1
    unfold Clock.wall at hlater
    omega
  obtain ⟨hin, hout⟩ := live_loadSnapshotEntries_apply hcap.nodup hahead st k
  by_cases hk : k ∈ entries.map Prod.fst
  · obtain ⟨e, he, rfl⟩ := List.mem_map.mp hk
    exact (hin e he rfl).trans (hcap.slot e he).symm
  · exact (hout hk).trans (hcap.complete k trivial hk).symm

theorem deserialize_serializeEntries (env : Env)
    (hcap : Captures env.clock (fun _ => True) ks entries) (hks : ks.Storable env.clock)
    {offset : Nat} (hoffset : offset < 256 ^ 8)
    (hsize : ((serializeEntries env offset entries).length : Int) ≤ i64Max) (st : Store F) :
    deserialize env.clock st (serializeEntries env offset entries) =
        .ok (offset, st.loadSnapshotEntries env.clock.mono entries) ∧
      (st.loadSnapshotEntries env.clock.mono entries).live env.clock = ks := by
  refine ⟨?_, Store.live_loadSnapshotEntries hcap hks.sound st⟩
  have hback : (entries.map (serializeEntry env)).filterMap (loadEntry env.clock) = entries := by
    rw [filterMap_map]
    exact (filterMap_congr fun e he =>
      loadEntry_serializeEntry env hks (hcap.slot e he)).trans filterMap_some
  have hser : serializeEntries env offset entries =
      snapshotOf env (unixMsFromInstant env.clock) offset entries := rfl
  obtain ⟨hlong, hdecode⟩ :=
    snapshotOf_decodes env (unixMsFromInstant_inI64 env.clock) entries hsize
  rw [deserialize, hser, if_neg hlong, hdecode, header_snapshotOf _ _ hoffset]
  exact congrArg (fun l => Except.ok (offset, st.loadSnapshotEntries env.clock.mono l)) hback

theorem deserialize_serialize (env : Env) (st : Store F)
    (hst : (st.live env.clock).Storable env.clock) {offset : Nat} (hoffset : offset < 256 ^ 8)
    (hsize : ((serialize env st offset).length : Int) ≤ i64Max) (st₀ : Store F) :
    ∃ loaded, deserialize env.clock st₀ (serialize env st offset) = .ok (offset, loaded) ∧
      loaded.live env.clock = st.live env.clock :=
  ⟨_, deserialize_serializeEntries env (st.captures env) hst hoffset hsize st₀⟩

end RocketMem
