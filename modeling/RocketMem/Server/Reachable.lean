import RocketMem.Engine.SnapshotLoad
import RocketMem.Engine.Survival
import RocketMem.Server.WriteProof

namespace RocketMem

open Function

variable {F : Type} [F64 F]

/-- `active_expire_cycle`: physically remove what has expired in one shard. -/
def Store.activeExpireCycle (now : Nat) (st : Store F) (j : Fin shardCount) : Store F where
  shards := update st.shards j ((st.shards j).removeExpired now).2
  tick := st.tick
  routed i k hk := by
    by_cases hi : i = j
    · subst hi
      rw [update_self] at hk
      exact st.routed i k (HashMap.mem_of_mem_retain hk)
    · rw [update_of_ne hi] at hk
      exact st.routed i k hk

theorem Store.live_activeExpireCycle (c : Clock) (st : Store F) (j : Fin shardCount) :
    (st.activeExpireCycle c.mono j).live c = st.live c := by
  funext k
  unfold live shardFor
  by_cases hj : shardIndex k = j
  · have hshard : (st.activeExpireCycle c.mono j).shards (shardIndex k) =
        ((st.shards j).removeExpired c.mono).2 := by
      rw [hj]
      exact update_self j _ _
    rw [hshard, hj, Shard.slot_eq_live, Shard.slot_eq_live]
    simp only [Shard.lookup_live, Shard.removeExpired, Option.filter_filter, Bool.and_self]
  · have hshard : (st.activeExpireCycle c.mono j).shards (shardIndex k) =
        st.shards (shardIndex k) := update_of_ne hj _ _
    rw [hshard]

theorem Store.sound_loadSnapshotEntries {c : Clock} {entries : List (Bytes × Value F × Option Nat)}
    (h : ∀ e ∈ entries, e.2.1.isEmptyCollection = false ∧
      ∀ d ∈ e.2.2, c.mono < d ∧ ((d / 1000 : Nat) : Int) ≤ i64Max) (st : Store F) :
    ((st.loadSnapshotEntries c.mono entries).live c).Sound c := by
  unfold loadSnapshotEntries
  have hstart : (({ (new : Store F) with tick := st.tick }).live c).Sound c := by
    intro k
    rw [live_new]
    exact Slot.sound_none c
  generalize ({ (new : Store F) with tick := st.tick } : Store F) = st' at hstart ⊢
  induction entries generalizing st' with
  | nil => exact hstart
  | cons e entries ih =>
    obtain ⟨key, v, expiry⟩ := e
    obtain ⟨hv, hd⟩ := h _ List.mem_cons_self
    refine ih (fun e he => h e (List.mem_cons_of_mem _ he)) _ ?_
    cases expiry with
    | none =>
      rw [live_set]
      exact Keyspace.sound_update hstart key (Slot.sound_some.mpr ⟨hv, nofun⟩)
    | some deadline =>
      obtain ⟨hahead, hreach⟩ := hd deadline rfl
      rw [live_insert_entry st' key v hahead]
      refine Keyspace.sound_update hstart key (Slot.sound_some.mpr ⟨hv, fun t ht => ?_⟩)
      cases ht
      refine ⟨Nat.add_lt_add_left hahead c.boot, ?_⟩
      rwa [Nat.add_sub_cancel_left]

theorem deserialize_serialize_eq {env : Env} {st st₀ loaded : Store F} {c : Clock}
    {offset offset' : Nat} (hsize : ((serialize env st offset).length : Int) ≤ i64Max)
    (h : deserialize c st₀ (serialize env st offset) = .ok (offset', loaded)) :
    loaded = st₀.loadSnapshotEntries c.mono
      (((st.snapshotEntries env).map (serializeEntry env)).filterMap (loadEntry c)) := by
  have hser : serialize env st offset =
      snapshotOf env (unixMsFromInstant env.clock) offset (st.snapshotEntries env) := rfl
  obtain ⟨hlong, hdecode⟩ :=
    snapshotOf_decodes env (unixMsFromInstant_inI64 env.clock) (st.snapshotEntries env) hsize
  rw [deserialize, hser, if_neg hlong, hdecode] at h
  exact (Prod.mk.inj (Except.ok.inj h)).2.symm

theorem Store.sound_deserialize {env : Env} {st st₀ loaded : Store F} {c : Clock}
    {offset offset' : Nat} (hst : (st.live env.clock).Sound env.clock)
    (hsize : ((serialize env st offset).length : Int) ≤ i64Max)
    (h : deserialize c st₀ (serialize env st offset) = .ok (offset', loaded)) :
    (loaded.live c).Sound c := by
  rw [deserialize_serialize_eq hsize h]
  refine sound_loadSnapshotEntries (fun e he => ?_) st₀
  obtain ⟨e', he', hload⟩ := List.mem_filterMap.mp he
  obtain ⟨⟨k, v, expiry⟩, hmem, rfl⟩ := List.mem_map.mp he'
  have hslot := (st.captures env).slot _ hmem
  have hv : v.isEmptyCollection = false := (hst k v _ hslot).1
  cases expiry with
  | none =>
    simp only [serializeEntry, loadEntry, Option.map_none, v.toValue_toSerializable env] at hload
    cases hload
    exact ⟨hv, fun d hd => absurd hd.symm (Option.some_ne_none d)⟩
  | some deadline =>
    have hms := (unixMsFromInstant_inI64 env.clock deadline).2
    simp only [serializeEntry, loadEntry, Option.map_some, v.toValue_toSerializable env] at hload
    split at hload
    · cases hload
    · next hahead =>
      cases hload
      refine ⟨hv, fun d hd => ?_⟩
      cases hd
      unfold instantFromUnixMs Clock.wall
      unfold Clock.wall at hahead
      omega

/-- The states of an engine without a memory ceiling: what commands, sweeps and the passing of
time make of an empty store, and what is loaded from a snapshot of such a state, by this process
or another one. -/
inductive Store.Reached : Clock → Store F → Prop
  | new (c : Clock) : Reached c Store.new
  | later {c c' : Clock} {st : Store F} (h : Reached c st) (hboot : c'.boot = c.boot)
      (hmono : c.mono ≤ c'.mono) : Reached c' st
  | dispatch {env : Env} {st : Store F} (h : Reached env.clock st) (hmem : env.maxmemory = none)
      (frame : Frame) : Reached env.clock (runEngine env (RocketMem.dispatch env frame) st).2
  | sweep {c : Clock} {st : Store F} (h : Reached c st) (j : Fin shardCount) :
      Reached c (st.activeExpireCycle c.mono j)
  | load {env : Env} {st st₀ loaded : Store F} {c : Clock} {offset offset' : Nat}
      (h : Reached env.clock st) (hsize : ((serialize env st offset).length : Int) ≤ i64Max)
      (hload : deserialize c st₀ (serialize env st offset) = .ok (offset', loaded)) :
      Reached c loaded

theorem Store.Reached.sound {c : Clock} {st : Store F} (h : st.Reached c) : (st.live c).Sound c := by
  induction h with
  | new c => exact Keyspace.sound_empty c
  | @later c c' st _ hboot hmono ih =>
    rw [Store.live_later hboot hmono]
    exact Keyspace.survive_sound hboot ih
  | dispatch _ hmem frame ih => exact dispatch_sound hmem frame ih
  | sweep _ j ih => rwa [Store.live_activeExpireCycle]
  | load _ hsize hload ih => exact Store.sound_deserialize ih hsize hload

/-- An error reply means that nothing clients can see has changed. -/
theorem error_leaves_live {env : Env} {st : Store F} (hst : st.Reached env.clock)
    (hmem : env.maxmemory = none) {frame reply : Frame}
    (hreply : (runEngine env (dispatch env frame) st).1 = some reply)
    (herror : reply.isError = true) :
    (runEngine env (dispatch env frame) st).2.live env.clock = st.live env.clock := by
  cases hname : extractWriteCommandName frame with
  | none => exact runEngine_reads (dispatch_reads hname) env st
  | some c =>
    have hatomic := dispatch_atomic (F := F) hmem hname
    obtain ⟨hresult, hlive⟩ := runEngine_live hatomic.touches env st
    rw [hlive]
    refine hatomic.unchanged _ hst.sound fun a ha => ?_
    have hsame : a = reply := Option.some.inj (ha.symm.trans (hresult.symm.trans hreply))
    rw [hsame]
    exact herror

def rpushFrame : Frame := .command [txt "RPUSH", txt "k", txt "a"]

def lsetFrame : Frame := .command [txt "LSET", txt "k", txt "5", txt "v"]

def listStore : Store Score := (runEngine Env.still (dispatch Env.still rpushFrame) .new).2

theorem runEngine_lsetFrame :
    (runEngine Env.still (dispatch Env.still lsetFrame) listStore).1 =
      some (.error (txt "index out of range")) := by
  have hrpush : extractWriteCommandName rpushFrame = some .rpush := by decide
  have hlset : extractWriteCommandName lsetFrame = some .lset := by decide
  have hmem : Env.still.maxmemory = none := rfl
  have hlive := (runEngine_live (dispatch_atomic hmem hrpush).touches Env.still
    (Store.new : Store Score)).2
  have hempty : (Store.new : Store Score).live Env.still.clock = fun _ => none := rfl
  rw [(runEngine_live (dispatch_atomic hmem hlset).touches _ _).1, listStore, hlive, hempty]
  rfl

theorem error_leaves_live_lset :
    (runEngine Env.still (dispatch Env.still lsetFrame) listStore).2.live .zero =
      listStore.live .zero :=
  error_leaves_live (.dispatch (.new .zero) rfl rpushFrame) rfl runEngine_lsetFrame rfl

end RocketMem
