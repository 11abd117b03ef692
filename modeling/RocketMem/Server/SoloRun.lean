import RocketMem.Server.NodeFrame

namespace RocketMem

open List Function

variable {F : Type} [F64 F] {cfg : Settings} {i : Nat}

def AppendsSucceed (i : Nat) (x : Option Fault) (o : ServerOp F) (s : Node F) : Prop :=
  match o with
  | .append frame => (s.append i x frame).1 = .ok ()
  | _ => True

def Smooth (i : Nat) (x : Option Fault) (o : ServerOp F) (s : Node F) : Prop :=
  x = none ∧ AppendsSucceed i x o s

/-- A thread runs through a program while no other takes a step. -/
abbrev Alone (cfg : Settings) (i : Nat) {α : Type} (p : ServerProgram F α) (s : Node F) (a : α)
    (s' : Node F) : Prop :=
  (server F cfg).Runs Smooth i p s (.ret a) s'

section

variable {s : Node F}

def Node.takeShards (i : Nat) (L : Finset (Fin shardCount)) (s : Node F) : Node F :=
  { s with guards := fun j => if j ∈ L then some i else s.guards j }

theorem lockEach_alone (shards : List (Fin shardCount)) (hnodup : shards.Nodup)
    (hfree : ∀ j ∈ shards, s.guards j = none) :
    Alone cfg i (shards.forM fun j => perform (.lockShard j)) s ()
      (s.takeShards i shards.toFinset) := by
  induction shards generalizing s with
  | nil =>
    have hsame : s.takeShards i ∅ = s := by simp [Node.takeShards]
    exact hsame ▸ .refl _ _
  | cons j shards ih =>
    obtain ⟨hj, hrest⟩ := nodup_cons.mp hnodup
    have hx : (server F cfg).exec i none (.lockShard j) s = some ((), s.takeShard i j) := by
      simp only [server, ServerOp.exec, hfree j mem_cons_self]
    refine .bind (.perform none ⟨rfl, trivial⟩ hx) ?_
    have hnext := ih (s := s.takeShard i j) hrest fun j' hj' => by
      have hne : j' ≠ j := fun h => hj (h ▸ hj')
      rw [Node.takeShard_guards, if_neg hne]
      exact hfree j' (mem_cons_of_mem j hj')
    have hsame : (s.takeShard i j).takeShards i shards.toFinset =
        s.takeShards i (j :: shards).toFinset := by
      have hguards : (fun j' => if j' ∈ shards.toFinset then some i
          else (s.takeShard i j).guards j') =
          fun j' => if j' ∈ (j :: shards).toFinset then some i else s.guards j' := by
        funext j'
        rw [Node.takeShard_guards]
        by_cases hj' : j' = j <;> simp [hj']
      exact congrArg (fun g => { s with guards := g }) hguards
    rwa [hsame] at hnext

theorem lockShards_alone (shards : List (Fin shardCount))
    (hfree : ∀ j ∈ shards.toFinset, s.guards j = none) :
    Alone cfg i (lockShards shards) s () (s.takeShards i shards.toFinset) := by
  have hsort : (shards.toFinset.sort (· ≤ ·)).toFinset = shards.toFinset := Finset.sort_toFinset ..
  rw [← hsort]
  exact lockEach_alone _ (Finset.sort_nodup _ _) fun j hj => hfree j ((Finset.mem_sort _).mp hj)

theorem finRange_toFinset : (List.finRange shardCount).toFinset = Finset.univ := by
  ext j
  simp

theorem lockAllShards_alone (hfree : ∀ j, s.guards j = none) :
    Alone cfg i lockAllShards s () (s.takeShards i Finset.univ) := by
  rw [← finRange_toFinset]
  exact lockShards_alone _ fun j _ => hfree j

def keyGuards (keys : List Bytes) : Finset (Fin shardCount) :=
  if keys.isEmpty then Finset.univ else (keys.map shardIndex).toFinset

theorem lockKeys_alone (keys : List Bytes) (hfree : ∀ j ∈ keyGuards keys, s.guards j = none) :
    Alone cfg i (lockKeys keys) s () (s.takeShards i (keyGuards keys)) := by
  unfold lockKeys keyGuards at *
  split at hfree
  · next hkeys =>
    rw [if_pos hkeys, if_pos hkeys]
    exact lockAllShards_alone fun j => hfree j (Finset.mem_univ j)
  · next hkeys =>
    rw [if_neg hkeys, if_neg hkeys]
    exact lockShards_alone _ hfree

theorem unlockShards_free (hfree : ∀ j, s.guards j = none) {t : Node F}
    {L : Finset (Fin shardCount)} (ht : t.guards = (s.takeShards i L).guards) :
    Alone cfg i unlockShards t () { t with guards := s.guards } := by
  have hguards : (fun j => if t.guards j = some i then none else t.guards j) = s.guards := by
    funext j
    simp only [ht, Node.takeShards, hfree j]
    by_cases hj : j ∈ L <;> simp [hj]
  have hrelease : t.releaseShards i = { t with guards := s.guards } :=
    congrArg (fun g => { t with guards := g }) hguards
  rw [← hrelease]
  exact .perform none ⟨rfl, trivial⟩ rfl

end

section

variable {s : Node F} (frames : List Frame)

theorem liftEngine_alone {α : Type} {env : Env} {p : EngineProgram F α} {a : α}
    {st : Store F} (hrun : runEngine env p s.store = (some a, st)) :
    Alone cfg i (liftEngine env p) s a { s with store := st } := by
  induction p generalizing s with
  | ret b =>
    cases hrun
    exact .refl _ _
  | halt => cases hrun
  | call o k ih =>
    exact .call none ⟨rfl, trivial⟩ rfl (ih _ (s := { s with store := _ }) hrun)

def Node.Room (n : Nat) (s : Node F) : Prop :=
  ∀ f, s.disk s.aofPath = some f → ((f.content.length + n : Nat) : Int) ≤ i64Max

theorem File.append_of_room {f : File} {b : Bytes}
    (h : ((f.content.length + b.length : Nat) : Int) ≤ i64Max) : ∃ f', f.append b = some f' := by
  have hlen : ((f.durable.length + (f.pending ++ b).length : Nat) : Int) ≤ i64Max := by
    rw [content, length_append] at h
    rw [length_append]
    omega
  exact ⟨_, dif_pos hlen⟩

theorem append_ok {frame : Frame} (h : s.Room (encode .resp2 frame).length) :
    (s.append i none frame).1 = .ok () := by
  unfold Node.append
  cases hfile : s.disk s.aofPath with
  | none => rfl
  | some f =>
    obtain ⟨f', hf'⟩ := File.append_of_room (h f hfile)
    simp only [hf']

def Node.logged (cfg : Settings) (i : Nat) (frame : Frame) (s : Node F) : Node F :=
  if cfg.policy = .always then (s.append i none frame).2.flushed else (s.append i none frame).2

theorem Node.logged_eq (frame : Frame) (s : Node F) :
    ∃ disk synced, s.logged cfg i frame =
      { s with log := s.log ++ [(i, frame)], disk := disk, synced := synced } := by
  obtain ⟨disk, hrest⟩ := append_frame i none frame s
  unfold logged
  rw [hrest]
  split <;> exact ⟨_, _, rfl⟩

theorem Node.logged_room {frame : Frame} {n : Nat}
    (h : s.Room ((encode .resp2 frame).length + n)) : (s.logged cfg i frame).Room n := by
  have happend : ∀ f, (s.append i none frame).2.disk s.aofPath = some f →
      ((f.content.length + n : Nat) : Int) ≤ i64Max := by
    intro f hf
    unfold append at hf
    cases hfile : s.disk s.aofPath with
    | none =>
      simp only [hfile] at hf
      cases hf
    | some f₀ =>
      have hroom := h f₀ hfile
      obtain ⟨f', hf'⟩ := File.append_of_room (f := f₀) (b := encode .resp2 frame) (by omega)
      simp only [hfile, hf', setFile, update_self] at hf
      obtain rfl := Option.some.inj hf
      rw [(File.append_eq_some hf').2, length_append]
      omega
  obtain ⟨disk, hrest⟩ := append_frame i none frame s
  unfold logged
  rw [hrest] at happend ⊢
  split
  · intro f hf
    simp only [flushed, setFile, update_self] at hf
    obtain ⟨f₀, hf₀, rfl⟩ := Option.map_eq_some_iff.mp hf
    rw [File.content_sync]
    exact happend f₀ hf₀
  · exact happend

theorem appendEncoded_alone {frame : Frame}
    (h : s.Room (encode .resp2 frame).length) :
    Alone cfg i (appendEncoded cfg frame) s (.ok ()) (s.logged cfg i frame) := by
  have hok := append_ok (i := i) h
  have hx : (server F cfg).exec i none (.append frame) s =
      some (.ok (), (s.append i none frame).2) :=
    congrArg some (Prod.ext hok rfl)
  refine .bind (.perform none ⟨rfl, hok⟩ hx) ?_
  unfold Node.logged
  split
  · exact .perform none ⟨rfl, trivial⟩ rfl
  · exact .refl _ _

def Node.loggedAll (cfg : Settings) (i : Nat) (frames : List Frame) (s : Node F) : Node F :=
  frames.foldl (fun s frame => s.logged cfg i frame) s

theorem Node.loggedAll_eq (s : Node F) :
    ∃ disk synced, s.loggedAll cfg i frames = { s with
      log := s.log ++ frames.map (Prod.mk i), disk := disk, synced := synced } := by
  induction frames generalizing s with
  | nil => exact ⟨s.disk, s.synced, by simp [loggedAll]⟩
  | cons frame frames ih =>
    obtain ⟨disk, synced, hhead⟩ : ∃ disk synced, s.logged cfg i frame =
        { s with log := s.log ++ [(i, frame)], disk := disk, synced := synced } :=
      s.logged_eq frame
    obtain ⟨disk', synced', htail⟩ := ih (s.logged cfg i frame)
    refine ⟨disk', synced', htail.trans ?_⟩
    rw [hhead, map_cons, append_assoc]
    rfl

theorem appendAll_alone
    (h : s.Room (frames.map fun f => (encode .resp2 f).length).sum) :
    Alone cfg i (appendAll cfg frames) s false (s.loggedAll cfg i frames) := by
  induction frames generalizing s with
  | nil => exact .refl _ _
  | cons frame frames ih =>
    rw [map_cons, sum_cons] at h
    have hhead : s.Room (encode .resp2 frame).length := fun f hf => by
      have := h f hf
      omega
    refine .bind (appendEncoded_alone hhead) ?_
    exact .bind (ih (Node.logged_room h)) (.refl _ _)

def Node.replicated (i : Nat) (frame : Frame) (s : Node F) : Node F :=
  let advance := FanoutOp.advanceMasterReplOffset (encode .resp2 frame).length
  { s with
    sent := s.sent ++ [frame]
    fanout := (advance.exec i s.fanout).2.broadcast i frame }

theorem replicate_alone (frame : Frame) (s : Node F) :
    Alone cfg i (replicate frame) s () (s.replicated i frame) :=
  .bind (.perform none ⟨rfl, trivial⟩ rfl) (.perform none ⟨rfl, trivial⟩ rfl)

def Node.replicatedAll (i : Nat) (frames : List Frame) (s : Node F) : Node F :=
  frames.foldl (fun s frame => s.replicated i frame) s

theorem replicateAll_alone (s : Node F) :
    Alone cfg i (replicateAll frames) s () (s.replicatedAll i frames) := by
  induction frames generalizing s with
  | nil => exact .refl _ _
  | cons frame frames ih => exact .bind (replicate_alone frame s) (ih _)

theorem Node.replicatedAll_eq (s : Node F) :
    ∃ fanout, s.replicatedAll i frames =
        { s with sent := s.sent ++ frames, fanout := fanout } ∧
      fanout.links = fun l => (s.fanout.links l).map fun link =>
        { link with channel := link.channel ++ frames } := by
  induction frames generalizing s with
  | nil =>
    refine ⟨s.fanout, by simp [replicatedAll], ?_⟩
    funext l
    cases s.fanout.links l <;> simp
  | cons frame frames ih =>
    obtain ⟨fanout, htail, hlinks⟩ := ih (s.replicated i frame)
    refine ⟨fanout, htail.trans ?_, hlinks.trans ?_⟩
    · simp only [replicated, append_assoc]
      rfl
    · funext l
      have hnow : (s.replicated i frame).fanout.links l = (s.fanout.links l).map fun link =>
          { link with channel := link.channel ++ [frame] } := rfl
      rw [hnow, Option.map_map]
      congr 1
      funext link
      simp

theorem mutateAndLog_alone {env : Env} {frame reply : Frame} {st : Store F}
    (hrun : runEngine env (dispatch env frame) s.store = (some reply, st))
    (hroom : s.Room ((toLog env.clock frame reply).map fun f => (encode .resp2 f).length).sum) :
    ∃ disk synced fanout,
      Alone cfg i (mutateAndLog cfg env frame) s (reply, false) { s with
        store := st
        log := s.log ++ (toLog env.clock frame reply).map (Prod.mk i)
        sent := s.sent ++ toLog env.clock frame reply
        disk := disk, synced := synced, fanout := fanout } ∧
      fanout.links = fun l => (s.fanout.links l).map fun link =>
        { link with channel := link.channel ++ toLog env.clock frame reply } := by
  generalize hframes : toLog env.clock frame reply = frames at hroom ⊢
  obtain ⟨disk, synced, hlogged⟩ : ∃ disk synced,
      ({ s with store := st } : Node F).loggedAll cfg i frames = { s with
        store := st, log := s.log ++ frames.map (Prod.mk i), disk := disk, synced := synced } :=
    Node.loggedAll_eq frames _
  obtain ⟨fanout, hreplicated, hlinks⟩ := Node.replicatedAll_eq (i := i) frames { s with
    store := st, log := s.log ++ frames.map (Prod.mk i), disk := disk, synced := synced }
  refine ⟨disk, synced, fanout, .bind (liftEngine_alone hrun) ?_, hlinks⟩
  rw [hframes]
  refine .bind (appendAll_alone frames hroom) ?_
  rw [hlogged]
  refine .bind (replicateAll_alone frames _) ?_
  rw [hreplicated]
  exact .refl _ _

theorem runWrite_alone {env : Env} {frame reply : Frame} {st : Store F}
    (hfree : ∀ j, s.guards j = none)
    (hrun : runEngine env (dispatch env frame) s.store = (some reply, st))
    (hroom : s.Room ((toLog env.clock frame reply).map fun f => (encode .resp2 f).length).sum) :
    ∃ disk synced fanout,
      Alone cfg i (runWrite cfg true env frame) s reply { s with
        store := st
        log := s.log ++ (toLog env.clock frame reply).map (Prod.mk i)
        sent := s.sent ++ toLog env.clock frame reply
        disk := disk, synced := synced, fanout := fanout } ∧
      fanout.links = fun l => (s.fanout.links l).map fun link =>
        { link with channel := link.channel ++ toLog env.clock frame reply } := by
  obtain ⟨disk, synced, fanout, hmutate, hlinks⟩ :=
    mutateAndLog_alone (s := s.takeShards i (keyGuards (commandKeys frame))) hrun hroom
  refine ⟨disk, synced, fanout, .bind (lockKeys_alone _ fun j _ => hfree j) ?_, hlinks⟩
  exact .bind hmutate (.bind (unlockShards_free hfree rfl) (.refl _ _))

end

section

variable {env : Env} {s : Node F}

theorem snapshotEntries_alone (js : List (Fin shardCount)) :
    Alone cfg i (snapshotEntries env js) s (js.flatMap fun j => (s.store.shards j).entries env) s := by
  induction js with
  | nil => exact .refl _ _
  | cons j js ih =>
    exact .bind (.perform none ⟨rfl, trivial⟩ rfl) (.bind ih (.refl _ _))

theorem takeSnapshot_alone {offset : Nat}
    (hsize : ((serialize env s.store offset).length : Int) ≤ i64Max) :
    Alone cfg i (takeSnapshot env offset) s (serialize env s.store offset)
      (s.note (.captured env (s.store.snapshotEntries env))) := by
  refine .bind (snapshotEntries_alone _) (.bind (.perform none ⟨rfl, trivial⟩ rfl) ?_)
  have hpositive : ((serializeEntries env offset (s.store.snapshotEntries env)).length : Int) ≤ i64Max :=
    hsize
  exact if_pos hpositive ▸ .refl _ _

theorem serveReplicaHandoff_alone (cfg : Settings) (i : Nat) (env : Env) (hfree : ∀ j, s.guards j = none)
    (hsize : ((serialize env s.store s.fanout.masterOffset.toNat).length : Int) ≤ i64Max) :
    Alone cfg i (serveReplicaHandoff env) s .null { s.note (.captured env (s.store.snapshotEntries env)) with
      fanout := { s.fanout with
        links := update s.fanout.links i
          (some ⟨serialize env s.store s.fanout.masterOffset.toNat, []⟩)
        attaching := update (update s.fanout.attaching i
          (some s.fanout.masterOffset)) i none } } := by
  refine .bind (lockAllShards_alone hfree) ?_
  refine .bind (.perform none ⟨rfl, trivial⟩ rfl) ?_
  refine .bind (takeSnapshot_alone hsize) ?_
  refine .bind (.perform none ⟨rfl, trivial⟩ rfl) ?_
  exact .bind (unlockShards_free hfree rfl) (.refl _ _)

def File.written (bytes : Bytes) (h : (bytes.length : Int) ≤ i64Max) : File where
  durable := bytes
  pending := []
  fits := h

end

inductive InTurn (cfg : Settings) : Nat → List Request → Node F → Node F → Prop
  | nil (i : Nat) (s : Node F) : InTurn cfg i [] s s
  | cons {i : Nat} {r : Request} {rs : List Request} {s s' s'' : Node F} {reply : Frame}
      (h : Alone cfg i (r.program cfg) s reply s') (hrest : InTurn cfg (i + 1) rs s' s'') :
      InTurn cfg i (r :: rs) s s''

theorem InTurn.goOn {rs : List Request} {s s' : Node F} (h : InTurn cfg i rs s s')
    {start now : ServerConfig F} (hreach : (server F cfg).Reaches Smooth start now)
    (hnow : now.shared = s)
    (hbefore : ∀ j p, j < i → now.threads j = some p → ∃ a, p = .ret a)
    (hafter : ∀ j, i ≤ j → now.threads j = (rs[j - i]?).map (Request.program cfg)) :
    ∃ final, (server F cfg).Reaches Smooth start final ∧ final.shared = s' ∧ final.Settled := by
  induction h generalizing now with
  | nil i s =>
    refine ⟨now, hreach, hnow, fun j p hj => ?_⟩
    by_cases hji : j < i
    · exact hbefore j p hji hj
    · rw [hafter j (by omega)] at hj
      cases hj
  | @cons i r rs s s' s'' reply halone _ ih =>
    have hi : now.threads i = some (r.program cfg) := by
      rw [hafter i le_rfl, Nat.sub_self]
      rfl
    have hnext := hreach.runs hi (hnow ▸ halone)
    refine ih hnext rfl (fun j p hj hp => ?_) fun j hj => ?_
    · by_cases hji : j = i
      · subst hji
        obtain rfl := Option.some.inj ((update_self j _ _).symm.trans hp)
        exact ⟨reply, rfl⟩
      · exact hbefore j p (by omega) ((update_of_ne hji _ _).symm.trans hp)
    · have hji : j ≠ i := by omega
      have hindex : j - i = j - (i + 1) + 1 := by omega
      refine (update_of_ne hji _ _).trans ((hafter j (by omega)).trans ?_)
      rw [hindex, getElem?_cons_succ]

theorem InTurn.reaches {rs : List Request} {s s' : Node F} (h : InTurn cfg 0 rs s s') :
    ∃ final, (server F cfg).Reaches Smooth (serving cfg s fun i => rs[i]?) final ∧
      final.shared = s' ∧ final.Settled :=
  h.goOn .refl rfl (fun _ _ hj => absurd hj (Nat.not_lt_zero _)) fun _ _ => rfl

end RocketMem
