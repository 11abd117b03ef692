import RocketMem.Server.Books

namespace RocketMem

open Option Finmap Function

variable {F : Type} [F64 F]

def Value.HasElement : Value F → Prop
  | string _ => True
  | list l => ∃ b, b ∈ l
  | hash m => ∃ field val, m.lookup field = some val
  | set s => ∃ b, b ∈ s
  | sortedSet z => ∃ member score, z.score member = some score

theorem Value.hasElement_iff (v : Value F) : v.HasElement ↔ v.isEmptyCollection = false := by
  have hkeys {V : Type} (m : HashMap Bytes V) :
      (∃ k v, m.lookup k = some v) ↔ ¬ m.keys.card = 0 := by
    rw [← ne_eq, Finset.card_ne_zero]
    exact exists_congr fun k => (mem_iff (s := m)).symm.trans Finmap.mem_keys.symm
  cases v with
  | string b => exact iff_of_true trivial rfl
  | list l => simp [HasElement, isEmptyCollection, List.eq_nil_iff_forall_not_mem]
  | hash m =>
    rw [isEmptyCollection, decide_eq_false_iff_not]
    exact hkeys m
  | set s =>
    rw [isEmptyCollection, decide_eq_false_iff_not, ← ne_eq, Finset.card_ne_zero]
    exact Iff.rfl
  | sortedSet z =>
    rw [isEmptyCollection, SortedSet.isEmpty, decide_eq_false_iff_not]
    exact hkeys z.scores

def Shard.Filled (s : Shard F) : Prop :=
  ∀ k e, s.map.lookup k = some e → e.value.isEmptyCollection = false

def Store.Filled (st : Store F) : Prop := ∀ i, (st.shards i).Filled

namespace Shard

variable {s : Shard F} {key : Bytes}

theorem Filled.drop (hs : s.Filled) (e : Entry F) : (s.drop key e).Filled := by
  intro k e' hk
  by_cases hkey : k = key
  · rw [hkey, Shard.drop, lookup_erase] at hk
    cases hk
  · rw [Shard.drop, lookup_erase_ne hkey] at hk
    exact hs k e' hk

theorem Filled.insert (hs : s.Filled) (e : Entry F) (he : e.value.isEmptyCollection = false)
    (used : UInt64) : Filled ⟨s.map.insert key e, used⟩ := by
  intro k e' hk
  by_cases hkey : k = key
  · rw [hkey, lookup_insert] at hk
    cases hk
    exact he
  · rw [lookup_insert_of_ne _ hkey] at hk
    exact hs k e' hk

theorem Filled.put (hs : s.Filled) {e e' : Entry F} (h : s.map.lookup key = some e)
    (hv : e'.value = e.value) : (s.put key e').Filled :=
  hs.insert e' (hv ▸ hs key e h) _

variable (now tick : Nat) (hs : s.Filled) (key)

include hs

theorem get_filled : (∀ v, (s.get now tick key).1 = some v → v.isEmptyCollection = false) ∧
    (s.get now tick key).2.Filled := by
  unfold get
  cases h : s.map.lookup key with
  | none => exact ⟨fun v hv => (some_ne_none v hv.symm).elim, hs⟩
  | some e =>
    have he := hs key e h
    dsimp only
    split
    · exact ⟨fun v hv => (some_ne_none v hv.symm).elim, hs.drop e⟩
    · refine ⟨fun v hv => ?_, hs.put h rfl⟩
      cases hv
      exact he

theorem withRef_filled : (∀ v, (s.withRef now tick key).1 = some v → v.isEmptyCollection = false) ∧
    (s.withRef now tick key).2.Filled := by
  unfold withRef
  cases h : s.map.lookup key with
  | none => exact ⟨fun v hv => (some_ne_none v hv.symm).elim, hs⟩
  | some e =>
    have he := hs key e h
    dsimp only
    split
    · exact ⟨fun v hv => (some_ne_none v hv.symm).elim, hs⟩
    · refine ⟨fun v hv => ?_, hs.put h rfl⟩
      cases hv
      exact he

theorem del_filled : (s.del now key).2.Filled := by
  unfold del
  split
  · exact hs
  · exact hs.drop _

theorem withMutDelta_filled (f : Value F → Value F × Int) :
    (∀ v, (s.withMutDelta now tick key f).1 = some v → v.isEmptyCollection = false) ∧
      (s.withMutDelta now tick key f).2.Filled := by
  unfold withMutDelta
  cases h : s.map.lookup key with
  | none => exact ⟨fun v hv => (some_ne_none v hv.symm).elim, hs⟩
  | some e =>
    have he := hs key e h
    dsimp only
    by_cases hexp : e.isExpired now
    · rw [if_pos hexp]
      exact ⟨fun v hv => (some_ne_none v hv.symm).elim, hs.drop e⟩
    · rw [if_neg hexp]
      refine ⟨fun v hv => ?_, ?_⟩
      · cases hv
        exact he
      · by_cases hempty : (f e.value).1.isEmptyCollection = true
        · rw [if_pos hempty]
          intro k e' hk
          by_cases hkey : k = key
          · rw [hkey, Shard.drop, lookup_erase] at hk
            cases hk
          · rw [Shard.drop, lookup_erase_ne hkey, lookup_insert_of_ne _ hkey] at hk
            exact hs k e' hk
        · rw [if_neg hempty]
          exact hs.insert _ (Bool.eq_false_iff.mpr hempty) _

theorem expireAt_filled (deadline : Nat) : (s.expireAt now key deadline).2.Filled := by
  unfold expireAt
  cases h : s.map.lookup key with
  | none => exact hs
  | some e =>
    dsimp only
    split
    · exact hs
    · exact hs.put h rfl

theorem persist_filled : (s.persist now key).2.Filled := by
  unfold persist
  cases h : s.map.lookup key with
  | none => exact hs
  | some e =>
    dsimp only
    split
    · exact hs.put h rfl
    · exact hs

omit key in
theorem removeExpired_filled : (s.removeExpired now).2.Filled := by
  intro k e hk
  have hlive : (s.live now).lookup k = some e := hk
  rw [lookup_live, filter_eq_some_iff] at hlive
  exact hs k e hlive.1

end Shard

theorem Store.Filled.update {st : Store F} (hst : st.Filled) {s : Shard F} (hs : s.Filled)
    (j i : Fin shardCount) : (update st.shards j s i).Filled := by
  by_cases hi : i = j
  · rw [hi, update_self]
    exact hs
  · rw [update_of_ne hi]
    exact hst i

theorem KeyOp.exec_filled (op : KeyOp F) (hop : op.IsFair fun v => v.isEmptyCollection = false)
    (now : Nat) (k : Bytes) {st : Store F} (hst : st.Filled) :
    op.Yields (fun v => v.isEmptyCollection = false) (op.exec now k st).1 ∧
      (op.exec now k st).2.Filled := by
  have hshard := hst (shardIndex k)
  cases op with
  | get =>
    obtain ⟨hyield, hleft⟩ := Shard.get_filled k now st.tick hshard
    exact ⟨hyield, hst.update hleft _⟩
  | set value => exact ⟨trivial, hst.update (hshard.insert ⟨value, none, st.tick⟩ hop _) _⟩
  | del => exact ⟨trivial, hst.update (Shard.del_filled k now hshard) _⟩
  | existsKey =>
    exact ⟨trivial, hst.update (Shard.withRef_filled k now st.tick hshard).2 _⟩
  | withRef =>
    obtain ⟨hyield, hleft⟩ := Shard.withRef_filled k now st.tick hshard
    exact ⟨hyield, hst.update hleft _⟩
  | withMutDelta f =>
    obtain ⟨hyield, hleft⟩ := Shard.withMutDelta_filled k now st.tick hshard f
    exact ⟨hyield, hst.update hleft _⟩
  | expireAt deadline =>
    exact ⟨trivial, hst.update (Shard.expireAt_filled k now hshard deadline) _⟩
  | persist => exact ⟨trivial, hst.update (Shard.persist_filled k now hshard) _⟩
  | ttl => exact ⟨trivial, hst⟩

theorem EngineOp.exec_filled {o : EngineOp F} (ho : o.IsFair fun v => v.isEmptyCollection = false)
    (env : Env) {st : Store F} (hst : st.Filled) :
    o.Yields (fun v => v.isEmptyCollection = false) (o.exec env st).1 ∧
      (o.exec env st).2.Filled := by
  cases o with
  | key k op => exact KeyOp.exec_filled op ho _ k hst
  | _ => exact ⟨trivial, hst⟩

/-- The states of an engine: what commands, each at any times and under any ceiling, and sweeps
make of an empty store, and what is loaded from a snapshot of such a state. -/
inductive Store.Arises : Store F → Prop
  | new : Arises Store.new
  | command {st : Store F} (h : Arises st) (env : Env) (clocks : Nat → Clock) (frame : Frame) :
      Arises (runTimed EngineOp.exec env clocks (dispatch env frame) st).2
  | sweep {st : Store F} (h : Arises st) (now : Nat) (j : Fin shardCount) :
      Arises (st.activeExpireCycle now j)
  | load {st st₀ loaded : Store F} (h : Arises st) {env : Env} {c : Clock} {offset offset' : Nat}
      (hsize : ((serialize env st offset).length : Int) ≤ i64Max)
      (hload : deserialize c st₀ (serialize env st offset) = .ok (offset', loaded)) :
      Arises loaded
  | tick {st : Store F} (h : Arises st) : Arises st.advanceClock

theorem dispatch_filled (env : Env) (clocks : Nat → Clock) (frame : Frame) {st : Store F}
    (hst : st.Filled) : (runTimed EngineOp.exec env clocks (dispatch env frame) st).2.Filled := by
  let good (v : Value F) : Prop := v.isEmptyCollection = false
  have hevict : (Engine.maybeEvict env : EngineProgram F Unit).Calls (EngineOp.IsFair good) :=
    maybeEvict_evicts.mono fun _ ho => ho.isFair
  have hfair : Program.Under (EngineOp.Yields good) (EngineOp.IsFair good) (Engine.maybeEvict env)
      (dispatch env frame : EngineProgram F Frame) := by
    rcases dispatch_cases (F := F) frame with ⟨raw, c, args, rfl, hname⟩ | ⟨reply, hreply⟩
    · rw [dispatch_command hname]
      cases hw : c.isWrite with
      | true => exact (Dispatch.arm_conducts (fun _ hv => hv) hw args).mono fun _ ho => ho.2
      | false =>
        exact Program.Calls.under (Program.Calls.mono (fun _ ho => ho.isFair)
          (Dispatch.arm_reads hw args)) _ _
    · rw [hreply env]
      exact .ret reply
  exact runTimed_invariant hfair hevict (fun env o ho st hst => EngineOp.exec_filled ho env hst)
    env clocks hst

theorem Store.Filled.activeExpireCycle {st : Store F} (hst : st.Filled) (now : Nat)
    (j : Fin shardCount) : (st.activeExpireCycle now j).Filled :=
  hst.update (Shard.removeExpired_filled now (hst j)) j

theorem Store.filled_loadSnapshotEntries {entries : List (Bytes × Value F × Option Nat)}
    (h : ∀ e ∈ entries, e.2.1.isEmptyCollection = false) (now : Nat) (st : Store F) :
    (st.loadSnapshotEntries now entries).Filled := by
  have hnew : ({ (Store.new : Store F) with tick := st.tick }).Filled := by
    intro i k e hk
    cases (lookup_empty k).symm.trans hk
  unfold Store.loadSnapshotEntries
  generalize ({ (Store.new : Store F) with tick := st.tick } : Store F) = st' at hnew ⊢
  induction entries generalizing st' with
  | nil => exact hnew
  | cons e entries ih =>
    obtain ⟨key, value, expiresAt⟩ := e
    have hvalue : value.isEmptyCollection = false := h _ List.mem_cons_self
    have hset := (KeyOp.exec_filled (.set value) hvalue now key hnew).2
    refine ih (fun e he => h e (List.mem_cons_of_mem _ he)) _ ?_
    cases expiresAt with
    | none => exact hset
    | some deadline => exact (KeyOp.exec_filled (.expireAt deadline) trivial now key hset).2

theorem Store.filled_deserialize {env : Env} {st st₀ loaded : Store F} {c : Clock}
    {offset offset' : Nat} (hst : st.Filled)
    (hsize : ((serialize env st offset).length : Int) ≤ i64Max)
    (h : deserialize c st₀ (serialize env st offset) = .ok (offset', loaded)) : loaded.Filled := by
  rw [deserialize_serialize_eq hsize h]
  refine Store.filled_loadSnapshotEntries (fun e he => ?_) _ st₀
  obtain ⟨e', he', hload⟩ := List.mem_filterMap.mp he
  obtain ⟨⟨k, v, expiry⟩, hmem, rfl⟩ := List.mem_map.mp he'
  have hv : v.isEmptyCollection = false := by
    obtain ⟨i, -, hi⟩ := List.mem_flatMap.mp hmem
    obtain ⟨entry, hentry, hvalue⟩ := ((st.shards i).mem_entries env _).mp hi
    cases hvalue
    rw [Shard.lookup_live, filter_eq_some_iff] at hentry
    exact hst i k entry hentry.1
  have hsame : e.2.1 = v := by
    cases expiry with
    | none =>
      simp only [serializeEntry, loadEntry, map_none, v.toValue_toSerializable env] at hload
      cases hload
      rfl
    | some deadline =>
      simp only [serializeEntry, loadEntry, map_some, v.toValue_toSerializable env] at hload
      split at hload
      · cases hload
      · cases hload
        rfl
  rwa [hsame]

theorem Store.Arises.filled {st : Store F} (h : st.Arises) : st.Filled := by
  induction h with
  | new =>
    intro i k e hk
    cases (lookup_empty k).symm.trans hk
  | command _ env clocks frame ih => exact dispatch_filled env clocks frame ih
  | sweep _ now j ih => exact ih.activeExpireCycle now j
  | load _ hsize hload ih => exact Store.filled_deserialize ih hsize hload
  | tick _ ih => exact ih

/-- Every stored collection has an element, and so a key is there exactly when a string or a
collection with an element is found under it. -/
theorem collections_filled {st : Store F} (h : st.Arises) :
    (∀ i k e, (st.shards i).map.lookup k = some e → e.value.HasElement) ∧
      ∀ now k, (st.existsKey now k).1 = true ↔
        ∃ v, (st.withRef now k).1 = some v ∧ v.HasElement := by
  refine ⟨fun i k e hk => e.value.hasElement_iff.mpr (h.filled i k e hk), fun now k => ?_⟩
  have hfound := (Shard.withRef_filled k now st.tick (h.filled (shardIndex k))).1
  rw [Store.existsKey, isSome_iff_exists]
  constructor
  · rintro ⟨v, hv⟩
    exact ⟨v, hv, v.hasElement_iff.mpr (hfound v hv)⟩
  · rintro ⟨v, hv, -⟩
    exact ⟨v, hv⟩

def pushedStore : Store Score :=
  (runTimed EngineOp.exec Env.still (fun _ => .zero)
    (dispatch Env.still (.command [txt "RPUSH", txt "k", txt "v"])) Store.new).2

theorem collections_filled_rpush :
    (∀ i k e, (pushedStore.shards i).map.lookup k = some e → e.value.HasElement) ∧
      ∀ now k, (pushedStore.existsKey now k).1 = true ↔
        ∃ v, (pushedStore.withRef now k).1 = some v ∧ v.HasElement :=
  collections_filled (.command .new Env.still (fun _ => .zero)
    (.command [txt "RPUSH", txt "k", txt "v"]))

end RocketMem
