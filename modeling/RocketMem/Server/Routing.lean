import RocketMem.Server.Cluster
import RocketMem.Server.Contract
import RocketMem.Server.Extent

namespace RocketMem

open List Function Shard ClusterConfig

section

variable {config : ClusterConfig}

def AnswersAt (text id : Bytes) (frame : Frame) (answer : Option Frame) : Prop :=
  ∃ c, parse text id = .ok c ∧ clusterRedirect (some c) frame = answer

def RoutedOnce (text : Bytes) (t : Topology) (frame : Frame) : Prop :=
  (∀ n ∈ t.nodes, AnswersAt text n.id frame (some crossSlot)) ∨
    ∃ slot, (∀ k ∈ commandKeys frame, keySlot k = slot) ∧
      ∃ owner ∈ t.nodes, AnswersAt text owner.id frame none ∧
        ∀ n ∈ t.nodes, n ≠ owner → AnswersAt text n.id frame (some (moved slot owner.addr))

theorem Topology.forNode_of_mem (t : Topology) {n : ClusterNode} (hn : n ∈ t.nodes) :
    ∃ c, t.forNode n.id = .ok c ∧ c.toTopology = t ∧ c.me = n := by
  unfold forNode
  split
  · next hnone =>
    have hall := findIdx?_eq_none_iff.mp hnone n hn
    simp at hall
  · next i hi =>
    refine ⟨_, rfl, rfl, ?_⟩
    obtain ⟨hlt, hfound, -⟩ := findIdx?_eq_some_iff_getElem.mp hi
    have hid : (t.nodes.get ⟨i, hlt⟩).id = n.id := of_decide_eq_true hfound
    exact inj_on_of_nodup_map t.distinct (get_mem _ _) hn hid

theorem ClusterConfig.parse_eq_ok {text id : Bytes}
    (h : parse text id = .ok config) : Topology.parse text = .ok config.toTopology := by
  unfold parse at h
  cases ht : Topology.parse text with
  | error e =>
    rw [ht] at h
    cases h
  | ok t =>
    rw [ht] at h
    change t.forNode id = .ok config at h
    unfold Topology.forNode at h
    split at h
    · cases h
    · cases h
      rfl

theorem ClusterConfig.parse_of_mem {text id : Bytes}
    (h : parse text id = .ok config) {n : ClusterNode} (hn : n ∈ config.nodes) :
    ∃ c, parse text n.id = .ok c ∧ c.toTopology = config.toTopology ∧ c.me = n := by
  obtain ⟨c, hc, hsame, hme⟩ := config.toTopology.forNode_of_mem hn
  refine ⟨c, ?_, hsame, hme⟩
  rw [parse, parse_eq_ok h]
  exact hc

theorem routedOnce {text id : Bytes}
    (h : parse text id = .ok config) {frame : Frame} (hkeys : commandKeys frame ≠ []) :
    RoutedOnce text config.toTopology frame := by
  obtain ⟨key, keys, hframe⟩ := exists_cons_of_ne_nil hkeys
  have hanswer {n : ClusterNode} (hn : n ∈ config.nodes) {answer : Option Frame}
      (hc : ∀ c : ClusterConfig, c.toTopology = config.toTopology → c.me = n →
        clusterRedirect (some c) frame = answer) : AnswersAt text n.id frame answer := by
    obtain ⟨c, hparse, hsame, hme⟩ := parse_of_mem h hn
    exact ⟨c, hparse, hc c hsame hme⟩
  by_cases hslots : (keys.all fun k => keySlot k = keySlot key) = true
  · have hredirect (c : ClusterConfig) : clusterRedirect (some c) frame =
        if c.owns (keySlot key) then none
        else some (moved (keySlot key) (c.ownerOf (keySlot key)).addr) := by
      simp only [clusterRedirect, Option.bind_some, hframe, hslots, if_true]
    refine .inr ⟨keySlot key, ?_, config.ownerOf (keySlot key), config.ownerOf_mem _, ?_, ?_⟩
    · intro k hk
      rw [hframe] at hk
      rcases mem_cons.mp hk with rfl | hk
      · rfl
      · exact of_decide_eq_true (all_eq_true.mp hslots k hk)
    · refine hanswer (config.ownerOf_mem _) fun c hsame hme => ?_
      rw [hredirect, if_pos ((c.owns_iff _).mpr (by rw [hsame, hme]))]
    · intro n hn hne
      refine hanswer hn fun c hsame hme => ?_
      have hother : ¬ c.owns (keySlot key) = true := fun howns => by
        have howner := (c.owns_iff _).mp howns
        rw [hsame, hme] at howner
        exact hne howner.symm
      rw [hredirect, if_neg hother, hsame]
  · refine .inl fun n hn => hanswer hn fun c _ _ => ?_
    simp only [clusterRedirect, Option.bind_some, hframe, if_neg hslots]

end

variable {F : Type} [F64 F]

section

variable {key k : Bytes}

def Store.Stored (st : Store F) (k : Bytes) : Prop := k ∈ (st.shardFor k).map

theorem Shard.absent (now tick : Nat) {s : Shard F} (h : s.map.lookup key = none) :
    (s.get now tick key).2 = s ∧ (s.del now key).2 = s ∧ (s.withRef now tick key).2 = s ∧
      (∀ f, (s.withMutDelta now tick key f).2 = s) ∧ (∀ t, (s.expireAt now key t).2 = s) ∧
      (s.persist now key).2 = s := by
  simp [get, del, withRef, withMutDelta, expireAt, persist, h]

theorem Store.stored_withShard {st : Store F} {s : Shard F}
    (h : (st.shardFor key).ChangesOnly key s) (hk : (st.withShard key s h).Stored k) :
    st.Stored k ∨ k = key ∧ key ∈ s.map := by
  unfold Stored shardFor withShard at hk
  by_cases hshard : shardIndex k = shardIndex key
  · simp only [hshard, update_self] at hk
    by_cases hkey : k = key
    · exact .inr ⟨hkey, hkey ▸ hk⟩
    · rw [← Finmap.lookup_isSome, h k hkey, Finmap.lookup_isSome] at hk
      unfold shardFor at hk
      rw [← hshard] at hk
      exact .inl hk
  · simp only [update_of_ne hshard] at hk
    exact .inl hk

theorem Store.stored_of_absent (st : Store F) {s : Shard F}
    (h : (st.shardFor key).ChangesOnly key s)
    (habsent : (st.shardFor key).map.lookup key = none → s = st.shardFor key)
    (hk : (st.withShard key s h).Stored k) : st.Stored k := by
  rcases stored_withShard h hk with hk | ⟨rfl, hmem⟩
  · exact hk
  · by_contra hnot
    rw [habsent (Finmap.lookup_eq_none.mpr hnot)] at hmem
    exact hnot hmem

theorem EngineOp.Creates.stored {K : Bytes → Prop} {env : Env} {o : EngineOp F} (ho : o.Creates K)
    {st : Store F} (hk : (o.exec env st).2.Stored k) : st.Stored k ∨ K k := by
  cases o with
  | key key op =>
    cases op with
    | set value =>
      rcases Store.stored_withShard (changesOnly_insert key _ _ _) hk with hk | ⟨rfl, -⟩
      · exact .inl hk
      · exact .inr ho
    | ttl => exact .inl hk
    | get =>
      exact .inl (st.stored_of_absent (get_changesOnly _ _ _ key) (fun h => (absent _ _ h).1) hk)
    | del =>
      exact .inl (st.stored_of_absent (del_changesOnly _ _ key) (fun h => (absent _ 0 h).2.1) hk)
    | existsKey | withRef =>
      exact .inl (st.stored_of_absent (withRef_changesOnly _ _ _ key)
        (fun h => (absent _ _ h).2.2.1) hk)
    | withMutDelta f =>
      exact .inl (st.stored_of_absent (withMutDelta_changesOnly _ _ _ key f)
        (fun h => (absent _ _ h).2.2.2.1 f) hk)
    | expireAt t =>
      exact .inl (st.stored_of_absent (expireAt_changesOnly _ _ key t)
        (fun h => (absent _ 0 h).2.2.2.2.1 t) hk)
    | persist =>
      exact .inl (st.stored_of_absent (persist_changesOnly _ _ key)
        (fun h => (absent _ 0 h).2.2.2.2.2) hk)
  | _ => exact .inl hk

end

section

variable {K : Bytes → Prop} {cfg : Settings} {i : Nat}
  {permits : Nat → Option Fault → ServerOp F → Node F → Prop}

def partitioned (F : Type) [F64 F] (K : Bytes → Prop) : Discipline (ServerOp F) (Node F) where
  inv s := ∀ k, s.store.Stored k → K k
  rely _ _ _ := True
  asserts _ _ _ := True
  absent _ _ := True
  rely_refl _ _ := trivial
  rely_trans _ _ := trivial
  absent_stable _ _ _ := trivial

def ServerOp.Creates (K : Bytes → Prop) : ServerOp F → Prop
  | engine _ o => o.Creates K
  | _ => True

theorem ServerOp.Creates.exec {o : ServerOp F} (ho : o.Creates K) {x : Option Fault} {s s' : Node F}
    {r : o.Ret} (hx : (server F cfg).exec i x o s = some (r, s'))
    (hs : ∀ k, s.store.Stored k → K k) : ∀ k, s'.store.Stored k → K k := by
  have hs' := congrArg (Option.map Prod.snd) hx
  cases o with
  | engine env o =>
    obtain rfl := Option.some.inj hs'
    intro k hk
    exact (EngineOp.Creates.stored ho hk).elim (hs k) id
  | clearShard j =>
    obtain rfl := Option.some.inj hs'
    intro k hk
    refine hs k ?_
    by_cases hj : shardIndex k = j
    · subst hj
      simp only [Store.Stored, Store.shardFor, Store.clearShard, update_self] at hk
      exact absurd hk Finmap.notMem_empty
    · simpa only [Store.Stored, Store.shardFor, Store.clearShard, update_of_ne hj] using hk
  | note n =>
    obtain rfl := Option.some.inj hs'
    cases n <;> exact hs
  | _ =>
    rw [(ServerOp.Storeless.exec hx (by trivial)).1]
    exact hs

theorem partitioned_triple {α : Type} {p : ServerProgram F α} (hp : p.Calls (ServerOp.Creates K)) :
    (partitioned F K).Triple (server F cfg) permits i (fun _ => True) p fun _ _ => True := by
  refine .of_calls hp (fun _ _ _ _ _ => trivial) (fun s hs _ => ⟨⟨hs, fun _ _ => trivial⟩, trivial⟩)
    (fun _ _ _ _ _ => trivial) ?_
  intro o ho s hs _ x r s' _ hx
  exact ⟨⟨ho.exec hx hs, fun _ _ => trivial⟩, trivial⟩

theorem Command.creates {c : Command} (hkeys : ∀ k ∈ commandKeys c.frame, K k) :
    (c.program : ServerProgram F Frame).Calls (ServerOp.Creates K) := by
  refine liftEngine_calls (dispatch_creates c.env c.frame) fun o ho => ?_
  cases o with
  | key k op =>
    cases op with
    | set value => exact hkeys k ho
    | _ => trivial
  | _ => trivial

theorem stored_of_reaches {node : Node F} {requests : Nat → Option Request} {final : ServerConfig F}
    (hstart : ∀ k, node.store.Stored k → K k)
    (hkeys : ∀ i r, requests i = some r → ∀ c ∈ r.commands, c.answered = none →
      ∀ k ∈ commandKeys c.frame, K k)
    (hrun : (server F cfg).Reaches (fun _ _ _ _ => True) (serving cfg node requests) final) :
    ∀ k, final.shared.store.Stored k → K k := by
  have hsustains : (partitioned F K).Sustains (server F cfg) (fun _ _ _ _ => True)
      (fun _ _ _ => True) (serving cfg node requests) := by
    refine ⟨hstart, fun i p hp => ?_, fun _ _ => trivial⟩
    obtain ⟨r, hr, rfl⟩ := Option.map_eq_some_iff.mp hp
    refine partitioned_triple (request_calls_of cfg (fun o ho => ?_) fun c hc hnone => ?_) node trivial
    · cases o with
      | engine => exact ho.elim
      | _ => trivial
    · exact Command.creates (hkeys i r hr c hc hnone)
  exact (Discipline.sound hsustains hrun).inv

end

def Command.RedirectedBy (config : ClusterConfig) (c : Command) : Prop :=
  ∀ reply, clusterRedirect (some config) c.frame = some reply → c.answered = some reply

theorem owns_of_clusterRedirect {config : ClusterConfig} {frame : Frame}
    (h : clusterRedirect (some config) frame = none) {k : Bytes} (hk : k ∈ commandKeys frame) :
    config.owns (keySlot k) = true := by
  obtain ⟨key, keys, hframe⟩ := exists_cons_of_ne_nil (ne_nil_of_mem hk)
  simp only [clusterRedirect, Option.bind_some, hframe] at h
  split at h
  · next hslots =>
    have hslot : keySlot k = keySlot key := by
      rw [hframe] at hk
      rcases mem_cons.mp hk with rfl | hk
      · rfl
      · exact of_decide_eq_true (all_eq_true.mp hslots k hk)
    split at h
    · next howns => rwa [hslot]
    · cases h
  · cases h

/-- Of the nodes of a cluster exactly the owner of a command's slot takes it, and a node never
stores a key of another node's slot. -/
theorem cluster_partition {text id : Bytes} {config : ClusterConfig}
    (h : ClusterConfig.parse text id = .ok config) :
    (∀ frame, commandKeys frame ≠ [] → RoutedOnce text config.toTopology frame) ∧
      ∀ (cfg : Settings) (node : Node F) (requests : Nat → Option Request) (final : ServerConfig F),
        (∀ i r, requests i = some r → ∀ c ∈ r.commands, c.RedirectedBy config) →
        (∀ k, node.store.Stored k → config.owns (keySlot k)) →
        (server F cfg).Reaches (fun _ _ _ _ => True) (serving cfg node requests) final →
        ∀ k, final.shared.store.Stored k → config.owns (keySlot k) := by
  refine ⟨fun frame hkeys => routedOnce h hkeys, ?_⟩
  intro cfg node requests final hrouted hstart hrun
  refine stored_of_reaches hstart (fun i r hr c hc hnone k hk => ?_) hrun
  cases hredirect : clusterRedirect (some config) c.frame with
  | none => exact owns_of_clusterRedirect hredirect hk
  | some reply =>
    rw [hrouted i r hr c hc reply hredirect] at hnone
    cases hnone

def twoNodes : Bytes := txt "a h 0 8191\nb i 8192 16383"

def setFoo : Frame := .command [txt "SET", txt "foo", txt "1"]

theorem cluster_partition_twoNodes :
    ∃ config, ClusterConfig.parse twoNodes (txt "b") = .ok config ∧ commandKeys setFoo ≠ [] ∧
      RoutedOnce twoNodes config.toTopology setFoo ∧
      ∀ final : ServerConfig Score,
        (server Score .eachSecond).Reaches (fun _ _ _ _ => True)
          (serving .eachSecond (Node.new .eachSecond) fun i =>
            [Request.single ⟨Env.still, setFoo, clusterRedirect (some config) setFoo⟩][i]?)
          final →
        ∀ k, final.shared.store.Stored k → config.owns (keySlot k) := by
  have hparse : (parse twoNodes (txt "b")).isOk = true := by decide
  have hkeys : commandKeys setFoo ≠ [] := by decide
  cases h : parse twoNodes (txt "b") with
  | error e =>
    rw [h] at hparse
    cases hparse
  | ok config =>
    have hcluster := cluster_partition (F := Score) h
    refine ⟨config, rfl, hkeys, hcluster.1 _ hkeys, fun final hrun => ?_⟩
    refine hcluster.2 _ _ _ final (fun i r hr c hc reply hreply => ?_) (fun k hk => ?_) hrun
    · rw [mem_singleton.mp (mem_of_getElem? hr)] at hc
      rw [mem_singleton.mp hc] at hreply ⊢
      exact hreply
    · exact absurd hk Finmap.notMem_empty

end RocketMem
