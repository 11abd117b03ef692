import RocketMem.Engine.Operation

namespace RocketMem

open List Program

variable {F : Type} [F64 F] {env : Env} {st st' : Store F} {key : Bytes}

namespace Store

def entry (st : Store F) (key : Bytes) : Option (Entry F) := (st.shardFor key).map.lookup key

def memoryUsed (st : Store F) : UInt64 :=
  ((List.finRange shardCount).map fun i => (st.shards i).bytesUsed).sum

/-- What a round of eviction samples: up to five entries of every shard, with their recency. -/
def sampled (env : Env) (st : Store F) : List (Bytes × Nat) :=
  ((List.finRange shardCount).map fun i =>
    ((env.iter (st.shards i).map.keys).take 5).map fun k =>
      (k, ((st.shards i).map.lookup k).elim 0 Entry.lastTouched)).flatten

def evicting (env : Env) (st : Store F) (key : Bytes) : Store F :=
  ((st.withRef env.clock.mono key).2.del env.clock.mono key).2

theorem entry_withShard (st : Store F) (key : Bytes) (s : Shard F)
    (h : (st.shardFor key).ChangesOnly key s) (k : Bytes) :
    (st.withShard key s h).entry k = if k = key then s.map.lookup key else st.entry k := by
  by_cases hk : k = key
  · subst hk
    simp [entry, shardFor, withShard]
  · rw [if_neg hk]
    by_cases hi : shardIndex k = shardIndex key
    · have hlookup := h k hk
      simp only [entry, withShard, shardFor, hi, Function.update_self] at hlookup ⊢
      exact hlookup
    · simp only [entry, withShard, shardFor, Function.update_of_ne hi]

theorem entry_evicting (env : Env) (st : Store F) (key k : Bytes) :
    (st.evicting env key).entry k = if k = key then none else st.entry k := by
  have hgone (now : Nat) (s : Shard F) : (s.del now key).2.map.lookup key = none := by
    unfold Shard.del
    cases h : s.map.lookup key with
    | none => exact h
    | some e => exact Finmap.lookup_erase key s.map
  rw [evicting, del, entry_withShard, hgone]
  split_ifs with hk
  · rfl
  · rw [withRef, entry_withShard, if_neg hk]

theorem entry_eq_of_mem_shard {i : Fin shardCount} {k : Bytes} (h : k ∈ (st.shards i).map) :
    st.entry k = (st.shards i).map.lookup k := by
  rw [entry, shardFor, st.routed i k h]

theorem entry_of_mem_sampled {k : Bytes} {tick : Nat} (h : (k, tick) ∈ st.sampled env) :
    ∃ e, st.entry k = some e ∧ e.lastTouched = tick := by
  obtain ⟨_, hshard, hmem⟩ := mem_flatten.mp h
  obtain ⟨i, -, rfl⟩ := mem_map.mp hshard
  obtain ⟨k', hk', heq⟩ := mem_map.mp hmem
  cases heq
  have hkey : k ∈ (st.shards i).map := by
    have hiter := mem_of_mem_take hk'
    rw [← Multiset.mem_coe, env.iter_eq, Finset.mem_val, Finmap.mem_keys] at hiter
    exact hiter
  obtain ⟨e, he⟩ := Finmap.mem_iff.mp hkey
  exact ⟨e, (entry_eq_of_mem_shard hkey).trans he, by rw [he]; rfl⟩

theorem entry_of_sampled_nil (h : st.sampled env = []) (k : Bytes) : st.entry k = none := by
  by_contra hne
  obtain ⟨e, he⟩ := Option.ne_none_iff_exists'.mp hne
  have hmem : k ∈ env.iter (st.shards (shardIndex k)).map.keys := by
    rw [← Multiset.mem_coe, env.iter_eq, Finset.mem_val, Finmap.mem_keys]
    exact Finmap.mem_iff.mpr ⟨e, he⟩
  have hshard := flatten_eq_nil_iff.mp h _ (mem_map_of_mem (mem_finRange (shardIndex k)))
  rw [map_eq_nil_iff, take_eq_nil_iff] at hshard
  rcases hshard with hfive | hnil
  · cases hfive
  · rw [hnil] at hmem
    cases hmem

end Store

def Selected (env : Env) (st : Store F) (key : Bytes) : Prop :=
  ∃ e, st.entry key = some e ∧ (key, e.lastTouched) ∈ st.sampled env ∧
    ∀ c ∈ st.sampled env, e.lastTouched ≤ c.2

inductive Evicts (env : Env) : Store F → List Bytes → Store F → Prop
  | done (st : Store F) : Evicts env st [] st
  | round {st st' : Store F} {key : Bytes} {keys : List Bytes} (hkey : Selected env st key)
      (hrest : Evicts env (st.evicting env key) keys st') : Evicts env st (key :: keys) st'

namespace Evicts

variable {keys : List Bytes}

theorem absent (h : Evicts env st keys st') {k : Bytes} (hk : st.entry k = none) :
    k ∉ keys ∧ st'.entry k = none := by
  induction h with
  | done st => exact ⟨not_mem_nil, hk⟩
  | @round st st' key keys hkey _ ih =>
    obtain ⟨e, he, -⟩ := hkey
    have hne : k ≠ key := by
      rintro rfl
      rw [hk] at he
      cases he
    obtain ⟨hnot, hgone⟩ := ih ((Store.entry_evicting env st key k).trans ((if_neg hne).trans hk))
    exact ⟨fun hmem => (mem_cons.mp hmem).elim hne hnot, hgone⟩

theorem gone (h : Evicts env st keys st') {k : Bytes} (hk : k ∈ keys) : st'.entry k = none := by
  induction h with
  | done st => cases hk
  | @round st st' key keys _ hrest ih =>
    rcases mem_cons.mp hk with rfl | hk
    · exact (hrest.absent ((Store.entry_evicting env st k k).trans (if_pos rfl))).2
    · exact ih hk

theorem kept (h : Evicts env st keys st') {k : Bytes} (hk : k ∉ keys) :
    st'.entry k = st.entry k := by
  induction h with
  | done st => rfl
  | @round st st' key keys _ _ ih =>
    rw [mem_cons, not_or] at hk
    obtain ⟨hne, hnot⟩ := hk
    rw [ih hnot, Store.entry_evicting, if_neg hne]

theorem nodup (h : Evicts env st keys st') : keys.Nodup := by
  induction h with
  | done st => exact nodup_nil
  | @round st st' key keys _ hrest ih =>
    exact nodup_cons.mpr
      ⟨(hrest.absent ((Store.entry_evicting env st key key).trans (if_pos rfl))).1, ih⟩

end Evicts

section

variable (env st)

theorem runEngine_overShards {α : Type} {f : Fin shardCount → EngineProgram F α}
    {look : Fin shardCount → α} (hf : ∀ i, runEngine env (f i) st = (some (look i), st)) :
    runEngine env (Engine.overShards f) st = (some ((List.finRange shardCount).map look), st) := by
  unfold Engine.overShards
  induction List.finRange shardCount with
  | nil => rfl
  | cons i is ih =>
    rw [mapM_cons, runEngine, run_bind_some _ (hf i), run_bind_some _ ih]
    rfl

theorem runEngine_memoryUsed : runEngine env Engine.memoryUsed st = (some st.memoryUsed, st) := by
  have hused := runEngine_overShards env st
    (f := fun i => Program.perform (EngineOp.shardBytesUsed i)) fun _ => rfl
  rw [Engine.memoryUsed, runEngine, run_bind_some _ hused]
  rfl

theorem runEngine_sampleForEviction :
    runEngine env (Engine.sampleForEviction 5) st = (some (st.sampled env), st) := by
  have hsample := runEngine_overShards env st
    (f := fun i => Program.perform (EngineOp.sampleRecency i 5)) fun _ => rfl
  rw [Engine.sampleForEviction, runEngine, run_bind_some _ hsample]
  rfl

variable {env st}

theorem oldest_least {found : List (Bytes × Nat)} (h : Engine.oldest found = some key) :
    ∃ tick, (key, tick) ∈ found ∧ ∀ c ∈ found, tick ≤ c.2 := by
  have hbest (cs : List (Bytes × Nat)) (best : Bytes × Nat) :
      let b := cs.foldl (fun best c => if c.2 < best.2 then c else best) best
      b ∈ best :: cs ∧ ∀ c ∈ best :: cs, b.2 ≤ c.2 := by
    induction cs generalizing best with
    | nil => simp
    | cons c cs ih =>
      obtain ⟨hmem, hle⟩ := ih (if c.2 < best.2 then c else best)
      rw [foldl_cons]
      split_ifs at hmem hle ⊢ with hlt
      · refine ⟨mem_cons_of_mem _ hmem, fun d hd => ?_⟩
        rcases mem_cons.mp hd with rfl | hd
        · exact (hle c mem_cons_self).trans hlt.le
        · exact hle d hd
      · have hfirst := hle best mem_cons_self
        refine ⟨?_, fun d hd => ?_⟩
        · rcases mem_cons.mp hmem with heq | hmem
          · exact mem_cons.mpr (.inl heq)
          · exact mem_cons_of_mem _ (mem_cons_of_mem _ hmem)
        · rcases mem_cons.mp hd with rfl | hd
          · exact hfirst
          · rcases mem_cons.mp hd with rfl | hd
            · exact hfirst.trans (Nat.not_lt.mp hlt)
            · exact hle d (mem_cons_of_mem _ hd)
  cases found with
  | nil => cases h
  | cons c cs =>
    obtain rfl := Option.some.inj h
    obtain ⟨hmem, hle⟩ := hbest cs c
    exact ⟨_, hmem, hle⟩

theorem selected_of_oldest (h : Engine.oldest (st.sampled env) = some key) :
    Selected env st key := by
  obtain ⟨tick, hmem, hle⟩ := oldest_least h
  obtain ⟨e, he, rfl⟩ := Store.entry_of_mem_sampled hmem
  exact ⟨e, he, hmem, hle⟩

theorem empty_of_no_oldest (h : Engine.oldest (st.sampled env) = none) (k : Bytes) :
    st.entry k = none := by
  have hnil : st.sampled env = [] := by
    cases hsample : st.sampled env with
    | nil => rfl
    | cons c cs =>
      rw [hsample] at h
      cases h
  exact Store.entry_of_sampled_nil hnil k

theorem runEngine_evict (ceiling attempts : Nat) (st : Store F) :
    ∃ keys st', runEngine env (Engine.evict ceiling attempts) st = (some (), st') ∧
      Evicts env st keys st' ∧ keys.length ≤ attempts ∧
      (st'.memoryUsed.toNat ≤ ceiling ∨ (∀ k, st'.entry k = none) ∨ keys.length = attempts) := by
  induction attempts generalizing st with
  | zero => exact ⟨[], st, rfl, .done st, le_rfl, .inr (.inr rfl)⟩
  | succ attempts ih =>
    have hused := runEngine_memoryUsed env st
    have hsample := runEngine_sampleForEviction env st
    rw [Engine.evict, runEngine, run_bind_some _ hused]
    split_ifs with hle
    · exact ⟨[], st, rfl, .done st, Nat.zero_le _, .inl hle⟩
    · rw [run_bind_some _ hsample]
      cases holdest : Engine.oldest (st.sampled env) with
      | none =>
        exact ⟨[], st, rfl, .done st, Nat.zero_le _, .inr (.inl (empty_of_no_oldest holdest))⟩
      | some key =>
        obtain ⟨keys, st', hrun, hevicts, hlen, hend⟩ := ih (st.evicting env key)
        refine ⟨key :: keys, st', hrun, .round (selected_of_oldest holdest) hevicts,
          Nat.succ_le_succ hlen, ?_⟩
        rw [length_cons, Nat.add_right_cancel_iff]
        exact hend

end

structure MakesRoom (env : Env) (ceiling : Nat) (st : Store F) (keys : List Bytes) (st' : Store F) :
    Prop where
  selected : Evicts env st keys st'
  ends : st'.memoryUsed.toNat ≤ ceiling ∨ (∀ k, st'.entry k = none) ∨ keys.length = 1000
  distinct : keys.Nodup
  evicted : ∀ k ∈ keys, st'.entry k = none
  unchanged : ∀ k ∉ keys, st'.entry k = st.entry k

theorem runEngine_maybeEvict {ceiling : Nat} (hmax : env.maxmemory = some ceiling) (st : Store F) :
    ∃ keys st', runEngine env (Engine.maybeEvict env) st = (some (), st') ∧
      MakesRoom env ceiling st keys st' := by
  obtain ⟨keys, st', hrun, hevicts, -, hend⟩ := runEngine_evict ceiling 1000 st
  refine ⟨keys, st', ?_, hevicts, hend, hevicts.nodup, fun k => hevicts.gone, fun k => hevicts.kept⟩
  rw [Engine.maybeEvict, hmax]
  exact hrun

/-- With a memory ceiling, every write ends within it, with an empty store or after exactly 1000
evictions. Each of these took the entry with the smallest tick of the sample, and all other entries
are as the write left them. -/
theorem eviction_exact (env : Env) (ceiling : Nat) (hmax : env.maxmemory = some ceiling)
    (st : Store F) (key : Bytes) :
    (∀ value, ∃ written keys st',
      runEngine env (Engine.set env key value) st = (some (), st') ∧
      written = st.set key value ∧ (∀ k, k ≠ key → written.entry k = st.entry k) ∧
      MakesRoom env ceiling written keys st') ∧
    ∀ (R : Type) (absent : R) (f : Value F → R × Value F × Int), ∃ written keys st' reply,
      runEngine env (Engine.withMutDelta env key absent f) st = (some reply, st') ∧
      written = (st.withMutDelta env.clock.mono key fun v => (f v).2).2 ∧
      (∀ k, k ≠ key → written.entry k = st.entry k) ∧
      MakesRoom env ceiling written keys st' := by
  constructor
  · intro value
    obtain ⟨keys, st', hrun, hroom⟩ := runEngine_maybeEvict hmax (st.set key value)
    refine ⟨_, keys, st', hrun, rfl, fun k hk => ?_, hroom⟩
    exact (Store.entry_withShard st key _ (Shard.changesOnly_insert key _ _ _) k).trans (if_neg hk)
  · intro R absent f
    let r := st.withMutDelta env.clock.mono key fun v => (f v).2
    obtain ⟨keys, st', hrun, hroom⟩ := runEngine_maybeEvict hmax r.2
    refine ⟨r.2, keys, st', _, run_bind_some _ hrun _, rfl, fun k hk => ?_, hroom⟩
    exact (Store.entry_withShard st key _
      (Shard.withMutDelta_changesOnly _ st.tick _ key fun v => (f v).2) k).trans (if_neg hk)

def tightEnv : Env := { Env.still with maxmemory := some 0 }

theorem eviction_exact_tight :
    ∃ (written : Store Score) (keys : List Bytes) (st' : Store Score),
      runEngine tightEnv (Engine.set tightEnv (txt "k") (.string (txt "v"))) Store.new =
        (some (), st') ∧ MakesRoom tightEnv 0 written keys st' := by
  obtain ⟨written, keys, st', hrun, -, -, hroom⟩ :=
    (eviction_exact (F := Score) tightEnv 0 rfl Store.new (txt "k")).1 (.string (txt "v"))
  exact ⟨written, keys, st', hrun, hroom⟩

end RocketMem
