import RocketMem.Server.Node

namespace RocketMem

open Option

variable {F : Type} [F64 F]

theorem Node.takeShard_guards (i : Nat) (j j' : Fin shardCount) (s : Node F) :
    (s.takeShard i j).guards j' = if j' = j then some i else s.guards j' :=
  Function.update_apply ..

section

variable {i : Nat} {x : Option Fault} {frame : Frame} {s : Node F}

theorem Node.append_frame (i : Nat) (x : Option Fault) (frame : Frame) (s : Node F) :
    ∃ disk, (s.append i x frame).2 = { s with log := s.log ++ [(i, frame)], disk := disk } := by
  unfold Node.append
  dsimp only
  split
  · exact ⟨_, rfl⟩
  · exact ⟨_, rfl⟩
  · exact ⟨_, rfl⟩
  · split
    · exact ⟨_, rfl⟩
    · exact ⟨_, rfl⟩

end

section

variable {x : Option Fault} {cfg : Settings} {s s' : Node F} {o : ServerOp F} {i : Nat}

theorem exec_lockShard {j : Fin shardCount}
    {r : Unit} (h : (server F cfg).exec i x (.lockShard j) s = some (r, s')) :
    s.guards j = none ∧ s' = s.takeShard i j := by
  simp only [server, ServerOp.exec] at h
  split at h
  · next hfree => exact ⟨hfree, (congrArg Prod.snd (some.inj h)).symm⟩
  · cases h

def ServerOp.OnFiles : ServerOp F → Prop
  | shardEntries _ _ | lockRewrite | unlockRewrite | flush | rotate _ | aofLen | readFile _
  | create _ | write _ _ | sync _ | rename _ _ | syncDir _ | remove _ => True
  | _ => False

/-- Everything but taking and dropping locks. -/
def ServerOp.Lockless : ServerOp F → Prop
  | lockShard _ | unlockShards | lockRewrite | unlockRewrite => False
  | _ => True

theorem exec_onFiles {r : o.Ret} (hx : (server F cfg).exec i x o s = some (r, s'))
    (h : o.OnFiles) :
    ∃ disk aofPath base mark synced rewriting, s' = { s with
      disk := disk, aofPath := aofPath, base := base, mark := mark, synced := synced,
      rewriting := rewriting } ∧ (o.Lockless → rewriting = s.rewriting) := by
  have hs' := congrArg (Option.map Prod.snd) hx
  cases o with
  | lockRewrite =>
    simp only [server, ServerOp.exec] at hs'
    split at hs'
    · obtain rfl := some.inj hs'
      exact ⟨_, _, _, _, _, _, rfl, False.elim⟩
    · cases hs'
  | rotate path =>
    obtain rfl := some.inj hs'
    unfold Node.rotate
    cases x with
    | none => exact ⟨_, _, _, _, _, _, rfl, fun _ => rfl⟩
    | some fault =>
      dsimp only
      split <;> exact ⟨_, _, _, _, _, _, rfl, fun _ => rfl⟩
  | write path bytes =>
    obtain rfl := some.inj hs'
    unfold Node.write
    split
    · exact ⟨_, _, _, _, _, _, rfl, fun _ => rfl⟩
    · exact ⟨_, _, _, _, _, _, rfl, fun _ => rfl⟩
    · exact ⟨_, _, _, _, _, _, rfl, fun _ => rfl⟩
    · split <;> exact ⟨_, _, _, _, _, _, rfl, fun _ => rfl⟩
  | rename source target =>
    cases x with
    | none =>
      obtain rfl := some.inj hs'
      unfold Node.rename
      split <;> exact ⟨_, _, _, _, _, _, rfl, fun _ => rfl⟩
    | some fault =>
      obtain rfl := some.inj hs'
      exact ⟨_, _, _, _, _, _, rfl, fun _ => rfl⟩
  | aofLen =>
    simp only [server, ServerOp.exec] at hs'
    split at hs' <;> obtain rfl := some.inj hs' <;> exact ⟨_, _, _, _, _, _, rfl, fun _ => rfl⟩
  | unlockRewrite =>
    obtain rfl := some.inj hs'
    exact ⟨_, _, _, _, _, _, rfl, False.elim⟩
  | shardEntries =>
    obtain rfl := some.inj hs'
    exact ⟨_, _, _, _, _, _, rfl, fun _ => rfl⟩
  | flush | readFile | create | sync | syncDir | remove =>
    cases x <;> obtain rfl := some.inj hs' <;> exact ⟨_, _, _, _, _, _, rfl, fun _ => rfl⟩
  | _ => exact h.elim

def ServerOp.Aside : ServerOp F → Prop
  | lockShard _ | unlockShards | fanout _ | broadcast _ => False
  | _ => True

def ServerOp.Elsewhere : ServerOp F → Prop
  | follow _ => False
  | _ => True

def ServerOp.Storeless : ServerOp F → Prop
  | engine _ _ | clearShard _ | note _ => False
  | _ => True

theorem exec_follow {o : FollowerOp}
    {r : o.Ret} (hx : (server F cfg).exec i x (.follow o) s = some (r, s')) :
    ∃ f, o.exec i s.follower = some (r, f) ∧ s' = { s with follower := f } := by
  obtain ⟨⟨r', f⟩, hf, h⟩ := map_eq_some_iff.mp hx
  cases h
  exact ⟨f, hf, rfl⟩

/-- What an operation leaves as it is. -/
structure Leaves (o : ServerOp F) (s s' : Node F) : Prop where
  aside : o.Aside → s'.guards = s.guards ∧ s'.fanout = s.fanout
  elsewhere : o.Elsewhere → s'.follower = s.follower
  storeless : o.Storeless → s'.store = s.store ∧ s'.steps = s.steps
  lockless : o.Lockless → s'.guards = s.guards ∧ s'.rewriting = s.rewriting

section

variable {r : o.Ret} (hx : (server F cfg).exec i x o s = some (r, s'))

include hx

theorem exec_leaves : Leaves o s s' := by
  have hs' := congrArg (Option.map Prod.snd) hx
  cases o with
  | append frame =>
    obtain ⟨disk, hrest⟩ := Node.append_frame i x frame s
    obtain rfl := (some.inj hs').symm.trans hrest
    exact ⟨fun _ => ⟨rfl, rfl⟩, fun _ => rfl, fun _ => ⟨rfl, rfl⟩, fun _ => ⟨rfl, rfl⟩⟩
  | lockShard j =>
    obtain ⟨-, rfl⟩ := exec_lockShard hx
    exact ⟨False.elim, fun _ => rfl, fun _ => ⟨rfl, rfl⟩, False.elim⟩
  | unlockShards =>
    obtain rfl := some.inj hs'
    exact ⟨False.elim, fun _ => rfl, fun _ => ⟨rfl, rfl⟩, False.elim⟩
  | fanout | broadcast =>
    obtain rfl := some.inj hs'
    exact ⟨False.elim, fun _ => rfl, fun _ => ⟨rfl, rfl⟩, fun _ => ⟨rfl, rfl⟩⟩
  | follow o =>
    obtain ⟨_, -, rfl⟩ := exec_follow hx
    exact ⟨fun _ => ⟨rfl, rfl⟩, False.elim, fun _ => ⟨rfl, rfl⟩, fun _ => ⟨rfl, rfl⟩⟩
  | note n =>
    obtain rfl := some.inj hs'
    cases n <;> exact ⟨fun _ => ⟨rfl, rfl⟩, fun _ => rfl, False.elim, fun _ => ⟨rfl, rfl⟩⟩
  | engine | clearShard =>
    obtain rfl := some.inj hs'
    exact ⟨fun _ => ⟨rfl, rfl⟩, fun _ => rfl, False.elim, fun _ => ⟨rfl, rfl⟩⟩
  | shardEntries | lockRewrite | unlockRewrite | flush | rotate | aofLen | readFile | create | write
  | sync | rename | syncDir | remove =>
    obtain ⟨_, _, _, _, _, _, rfl, hsame⟩ := exec_onFiles hx trivial
    exact ⟨fun _ => ⟨rfl, rfl⟩, fun _ => rfl, fun _ => ⟨rfl, rfl⟩, fun h => ⟨rfl, hsame h⟩⟩

theorem ServerOp.Aside.exec (h : o.Aside) : s'.guards = s.guards ∧ s'.fanout = s.fanout :=
  (exec_leaves hx).aside h

theorem ServerOp.Elsewhere.exec (h : o.Elsewhere) : s'.follower = s.follower :=
  (exec_leaves hx).elsewhere h

theorem ServerOp.Storeless.exec (h : o.Storeless) : s'.store = s.store ∧ s'.steps = s.steps :=
  (exec_leaves hx).storeless h

end

variable {cfg : Settings} {i : Nat} {s s' : Node F} {x : Option Fault}

structure Unlogged (s s' : Node F) : Prop where
  log : s'.log = s.log
  synced : s'.synced = s.synced ∨ s'.synced = s.log.length

def ServerOp.IsAppend : ServerOp F → Prop
  | append _ => True
  | _ => False

theorem exec_unlogged {o : ServerOp F} (ho : ¬ o.IsAppend) {r : o.Ret}
    (hx : (server F cfg).exec i x o s = some (r, s')) : Unlogged s s' := by
  have hs' := congrArg (Option.map Prod.snd) hx
  cases o with
  | append => exact absurd trivial ho
  | lockShard j =>
    obtain ⟨-, rfl⟩ := exec_lockShard hx
    exact ⟨rfl, .inl rfl⟩
  | follow o =>
    obtain ⟨_, -, rfl⟩ := exec_follow hx
    exact ⟨rfl, .inl rfl⟩
  | note n =>
    obtain rfl := some.inj hs'
    cases n <;> exact ⟨rfl, .inl rfl⟩
  | lockRewrite =>
    simp only [server, ServerOp.exec] at hs'
    split at hs'
    · obtain rfl := some.inj hs'
      exact ⟨rfl, .inl rfl⟩
    · cases hs'
  | flush =>
    cases x <;> obtain rfl := some.inj hs'
    · exact ⟨rfl, .inr rfl⟩
    · exact ⟨rfl, .inl rfl⟩
  | rotate path =>
    obtain rfl := some.inj hs'
    unfold Node.rotate
    cases x with
    | none => exact ⟨rfl, .inr rfl⟩
    | some fault =>
      dsimp only
      split
      · exact ⟨rfl, .inl rfl⟩
      · exact ⟨rfl, .inr rfl⟩
  | write path bytes =>
    obtain rfl := some.inj hs'
    unfold Node.write
    split
    · exact ⟨rfl, .inl rfl⟩
    · exact ⟨rfl, .inl rfl⟩
    · exact ⟨rfl, .inl rfl⟩
    · split <;> exact ⟨rfl, .inl rfl⟩
  | rename source target =>
    cases x <;> obtain rfl := some.inj hs'
    · unfold Node.rename
      split <;> exact ⟨rfl, .inl rfl⟩
    · exact ⟨rfl, .inl rfl⟩
  | aofLen =>
    simp only [server, ServerOp.exec] at hs'
    split at hs' <;> obtain rfl := some.inj hs' <;> exact ⟨rfl, .inl rfl⟩
  | engine | clearShard | unlockShards | fanout | broadcast | shardEntries | unlockRewrite =>
    obtain rfl := some.inj hs'
    exact ⟨rfl, .inl rfl⟩
  | readFile | create | sync | syncDir | remove =>
    cases x <;> obtain rfl := some.inj hs' <;> exact ⟨rfl, .inl rfl⟩

theorem exec_holds {o : ServerOp F} {r : o.Ret}
    (hx : (server F cfg).exec i x o s = some (r, s')) {j : Fin shardCount} {i' : Nat}
    (ho : i' = i → o ≠ .unlockShards) (hj : s.guards j = some i') : s'.guards j = some i' := by
  have hs' := congrArg (Option.map Prod.snd) hx
  cases o with
  | lockShard j' =>
    obtain ⟨hfree, rfl⟩ := exec_lockShard hx
    rw [Node.takeShard_guards, if_neg]
    · exact hj
    · rintro rfl
      rw [hfree] at hj
      cases hj
  | unlockShards =>
    obtain rfl := some.inj hs'
    have hne : i' ≠ i := fun h => ho h rfl
    simp only [Node.releaseShards, hj, Option.some.injEq, hne, if_false]
  | fanout | broadcast =>
    obtain rfl := some.inj hs'
    exact hj
  | _ =>
    refine (congrFun (ServerOp.Aside.exec hx ?_).1 j).trans hj
    trivial

def ServerOp.OfWriters : ServerOp F → Prop
  | rotate _ | create _ | write _ _ | sync _ | rename _ _ | remove _ => False
  | _ => True

structure SameFiles (s s' : Node F) : Prop where
  disk : s'.disk = s.disk
  aofPath : s'.aofPath = s.aofPath
  log : s'.log = s.log
  base : s'.base = s.base
  mark : s'.mark = s.mark
  synced : s'.synced = s.synced

theorem exec_writers {o : ServerOp F} (ho : o.OfWriters) {r : o.Ret}
    (hx : (server F cfg).exec i x o s = some (r, s')) :
    (∃ frame, o = .append frame ∧ s' = (s.append i x frame).2) ∨
      (o = .flush ∧ x = none ∧ s' = s.flushed) ∨ SameFiles s s' := by
  have hs' := congrArg (Option.map Prod.snd) hx
  cases o with
  | rotate | create | write | sync | rename | remove => exact ho.elim
  | append frame => exact .inl ⟨frame, rfl, (some.inj hs').symm⟩
  | flush =>
    cases x <;> obtain rfl := some.inj hs'
    · exact .inr (.inl ⟨rfl, rfl, rfl⟩)
    · exact .inr (.inr ⟨rfl, rfl, rfl, rfl, rfl, rfl⟩)
  | lockShard j =>
    obtain ⟨-, rfl⟩ := exec_lockShard hx
    exact .inr (.inr ⟨rfl, rfl, rfl, rfl, rfl, rfl⟩)
  | follow o =>
    obtain ⟨_, -, rfl⟩ := exec_follow hx
    exact .inr (.inr ⟨rfl, rfl, rfl, rfl, rfl, rfl⟩)
  | note n =>
    obtain rfl := some.inj hs'
    cases n <;> exact .inr (.inr ⟨rfl, rfl, rfl, rfl, rfl, rfl⟩)
  | lockRewrite =>
    simp only [server, ServerOp.exec] at hs'
    split at hs'
    · obtain rfl := some.inj hs'
      exact .inr (.inr ⟨rfl, rfl, rfl, rfl, rfl, rfl⟩)
    · cases hs'
  | aofLen =>
    simp only [server, ServerOp.exec] at hs'
    split at hs' <;> obtain rfl := some.inj hs' <;> exact .inr (.inr ⟨rfl, rfl, rfl, rfl, rfl, rfl⟩)
  | engine | clearShard | unlockShards | fanout | broadcast | shardEntries | unlockRewrite =>
    obtain rfl := some.inj hs'
    exact .inr (.inr ⟨rfl, rfl, rfl, rfl, rfl, rfl⟩)
  | readFile | syncDir =>
    cases x <;> obtain rfl := some.inj hs' <;> exact .inr (.inr ⟨rfl, rfl, rfl, rfl, rfl, rfl⟩)

theorem Node.append_eq_ok {frame : Frame} {f : File}
    (hf : s.disk s.aofPath = some f) (h : (s.append i x frame).1 = .ok ()) :
    ∃ f', f.append (encode .resp2 frame) = some f' ∧ (s.append i x frame).2 =
      { s with log := s.log ++ [(i, frame)],
               disk := Function.update s.disk s.aofPath (some f') } := by
  unfold Node.append at h ⊢
  rw [hf] at h ⊢
  cases x with
  | some fault => cases h
  | none =>
    dsimp only at h ⊢
    cases hf' : f.append (encode .resp2 frame) with
    | none => rw [hf'] at h; cases h
    | some f' => exact ⟨f', rfl, rfl⟩

end

variable {ok : ServerOp F → Prop}

theorem liftEngine_calls {α : Type} {ok : EngineOp F → Prop} {ok' : ServerOp F → Prop} {env : Env}
    {p : EngineProgram F α} (hp : p.Calls ok) (h : ∀ o, ok o → ok' (.engine env o)) :
    (liftEngine env p).Calls ok' := by
  induction hp with
  | ret a => exact .ret a
  | halt => exact .halt
  | call ho _ ih => exact .call (h _ ho) ih

theorem liftEngine_calls_any {α : Type} {env : Env}
    (h : ∀ o, ok (.engine env o)) (p : EngineProgram F α) : (liftEngine env p).Calls ok := by
  induction p with
  | ret a => exact .ret a
  | halt => exact .halt
  | call o k ih => exact .call (h o) ih

theorem snapshotEntries_calls {env : Env}
    (h : ∀ j, ok (.shardEntries env j)) (js : List (Fin shardCount)) :
    (snapshotEntries env js).Calls ok := by
  induction js with
  | nil => exact .ret _
  | cons j js ih => exact .bind (.perform (h j)) fun _ => .bind ih fun _ => .ret _

theorem takeSnapshot_calls {env : Env}
    (hshard : ∀ j, ok (.shardEntries env j)) (hnote : ∀ entries, ok (.note (.captured env entries)))
    (offset : Nat) : (takeSnapshot env offset).Calls ok := by
  refine .bind (snapshotEntries_calls hshard _) fun entries => .bind (.perform (hnote entries)) fun _ => ?_
  dsimp only
  split
  · exact .ret _
  · exact .halt

theorem forM_calls {α : Type} {f : α → ServerProgram F Unit} (hf : ∀ a, (f a).Calls ok)
    (as : List α) : (as.forM f).Calls ok := by
  induction as with
  | nil => exact .ret _
  | cons a as ih => exact .bind (hf a) fun _ => ih

def ServerOp.Requested : ServerOp F → Prop
  | clearShard _ | follow _ | note .loading | note (.applying _ _)
  | note .stepped => False
  | _ => True

theorem ServerOp.Requested.elsewhere {o : ServerOp F} (h : o.Requested) : o.Elsewhere := by
  cases o with
  | follow => exact h.elim
  | _ => trivial

def ServerOp.Around : ServerOp F → Prop
  | engine _ _ => False
  | o => o.Requested

theorem ServerOp.Around.requested {o : ServerOp F} (h : o.Around) : o.Requested := by
  cases o with
  | engine => exact h.elim
  | _ => exact h

def Request.commands : Request → List Command
  | single c => [c]
  | exec queued => queued
  | psync _ | fsync => []

def Command.program (c : Command) : ServerProgram F Frame :=
  liftEngine c.env (dispatch c.env c.frame)

def ServerOp.Plumbing : ServerOp F → Prop
  | append _ | rotate _ | create _ | write _ _ | sync _ | rename _ _ | remove _ => False
  | o => o.Around

theorem ServerOp.Plumbing.around {o : ServerOp F} (h : o.Plumbing) : o.Around := by
  cases o with
  | append | rotate | create | write | sync | rename | remove => exact h.elim
  | _ => exact h

structure Command.Within (ok : ServerOp F → Prop) (c : Command) : Prop where
  engine : c.program.Calls ok
  logs : ∀ reply, ∀ f ∈ toLog c.env.clock c.frame reply, ok (.append f)
  files : isNamed "SAVE" c.frame = true ∨ isNamed "BGREWRITEAOF" c.frame = true →
    ∀ o, ServerOp.Around o → ok o

variable {ok : ServerOp F → Prop} (cfg : Settings)

theorem attempt_calls {α β : Type} {p : ServerProgram F (IoResult α)}
    {f : α → ServerProgram F (IoResult β)} (hp : p.Calls ok) (hf : ∀ a, (f a).Calls ok) :
    (attempt p f).Calls ok := by
  refine .bind hp fun r => ?_
  cases r with
  | error e => exact .ret _
  | ok a => exact hf a

section

variable (h : ∀ o, ServerOp.Plumbing o → ok o)

include h

theorem lockKeys_calls (keys : List Bytes) : (lockKeys keys).Calls ok := by
  unfold lockKeys
  split
  · exact forM_calls (fun j => .perform (h (.lockShard j) trivial)) _
  · exact forM_calls (fun j => .perform (h (.lockShard j) trivial)) _

theorem unlockShards_calls : unlockShards.Calls ok := .perform (h .unlockShards trivial)

end

section

variable (h : ∀ o, ServerOp.Plumbing o → o.Lockless → ok o)

include h

theorem replicate_calls (frame : Frame) : (replicate frame).Calls ok :=
  .bind (.perform (h (.fanout _) trivial trivial)) fun _ =>
    .perform (h (.broadcast _) trivial trivial)

theorem appendEncoded_calls {frame : Frame} (hframe : ok (.append frame)) :
    (appendEncoded cfg frame).Calls ok := by
  refine .bind (.perform hframe) fun written => ?_
  split
  · cases written with
    | error e => exact .ret _
    | ok u => exact .perform (h .flush trivial trivial)
  · exact .ret _

theorem mutateAndLog_calls {c : Command} (hc : c.Within ok) :
    (mutateAndLog cfg c.env c.frame).Calls ok := by
  have hlog (frames : List Frame) (hframes : ∀ f ∈ frames, ok (.append f)) :
      (appendAll cfg frames).Calls ok := by
    induction frames with
    | nil => exact .ret _
    | cons f frames ih =>
      refine .bind (appendEncoded_calls cfg h (hframes f List.mem_cons_self)) fun _ => ?_
      exact .bind (ih fun f' hf' => hframes f' (List.mem_cons_of_mem f hf')) fun _ => .ret _
  refine .bind hc.engine fun reply => ?_
  refine .bind (hlog _ (hc.logs reply)) fun failed => ?_
  exact .bind (forM_calls (replicate_calls h) _) fun _ => .ret _

theorem readGeneration_calls : (readGeneration cfg).Calls ok := by
  refine .bind (.perform (h (.readFile _) trivial trivial)) fun contents => ?_
  cases contents <;> exact .ret _

theorem snapshot_calls (env : Env) (offset : Nat) : (takeSnapshot env offset).Calls ok :=
  takeSnapshot_calls (fun _ => h (.shardEntries _ _) trivial trivial)
    (fun _ => h (.note _) trivial trivial) offset

theorem runPublish_calls (frame : Frame) : (runPublish frame).Calls ok := by
  unfold runPublish
  split
  · exact .bind (.perform (h (.fanout _) trivial trivial)) fun _ =>
      .bind (replicate_calls h _) fun _ => .ret _
  · exact .ret _

theorem currentOffset_calls : currentOffset.Calls ok :=
  attempt_calls (.perform (h .flush trivial trivial)) fun _ => .perform (h .aofLen trivial trivial)

theorem appendTransactionMarker_calls {mk : Marker} (hmarker : ok (.append (markerFrame mk))) :
    (appendTransactionMarker cfg mk).Calls ok :=
  .bind (appendEncoded_calls cfg h hmarker) fun _ => replicate_calls h _

end

theorem writeAtomically_calls (h : ∀ o, ServerOp.Around o → o.Lockless → ok o) (path : Path)
    (bytes : Bytes) : (writeAtomically path bytes).Calls ok :=
  attempt_calls (.perform (h (.create _) trivial trivial)) fun _ =>
    attempt_calls (.perform (h (.write _ _) trivial trivial)) fun _ =>
      attempt_calls (.perform (h (.sync _) trivial trivial)) fun _ =>
        attempt_calls (.perform (h (.rename _ _) trivial trivial)) fun _ =>
          .perform (h (.syncDir _) trivial trivial)

section

variable (h : ∀ o, ServerOp.Around o → ok o)

include h

theorem handleSave_calls (env : Env) : (handleSave cfg env).Calls ok := by
  have hplumbing : ∀ o, ServerOp.Plumbing o → ok o := fun o ho => h o ho.around
  have hinner : ∀ o, ServerOp.Plumbing o → o.Lockless → ok o := fun o ho _ => hplumbing o ho
  refine .bind (.perform (h .lockRewrite trivial)) fun _ => .bind ?_ fun _ =>
    .bind (.perform (h .unlockRewrite trivial)) fun _ => .ret _
  refine .bind (readGeneration_calls cfg hinner) fun gen => ?_
  cases gen with
  | error e => exact .ret _
  | ok gen =>
    refine .bind ?_ fun image => ?_
    · refine .bind (lockKeys_calls hplumbing []) fun _ => .bind ?_ fun _ =>
        .bind (unlockShards_calls hplumbing) fun _ => .ret _
      exact attempt_calls (currentOffset_calls hinner) fun offset =>
        (snapshot_calls hinner env offset).map _
    · cases image with
      | error e => exact .ret _
      | ok bytes =>
        refine .bind (writeAtomically_calls (fun o ho _ => h o ho) _ bytes) fun written => ?_
        cases written <;> exact .ret _

theorem startRewrite_calls (env : Env) : (startRewrite cfg env).Calls ok := by
  have hplumbing : ∀ o, ServerOp.Plumbing o → ok o := fun o ho => h o ho.around
  have hinner : ∀ o, ServerOp.Plumbing o → o.Lockless → ok o := fun o ho _ => hplumbing o ho
  refine .bind (lockKeys_calls hplumbing []) fun _ => .bind ?_ fun _ =>
    .bind (unlockShards_calls hplumbing) fun _ => .ret _
  refine attempt_calls (readGeneration_calls cfg hinner) fun gen => ?_
  refine .bind (snapshot_calls hinner env 0) fun bytes => ?_
  exact attempt_calls (.perform (h (.rotate _) trivial)) fun _ => .ret _

theorem handleBgrewriteaof_calls (env : Env) : (handleBgrewriteaof cfg env).Calls ok := by
  refine .bind (.perform (h .lockRewrite trivial)) fun _ => .bind ?_ fun _ =>
    .bind (.perform (h .unlockRewrite trivial)) fun _ => .ret _
  refine .bind (startRewrite_calls cfg h env) fun started => ?_
  rcases started with e | ⟨next, bytes⟩
  · exact .ret _
  refine .bind (writeAtomically_calls (fun o ho _ => h o ho) _ bytes) fun written => ?_
  cases written with
  | error e => exact .ret _
  | ok u =>
    refine .bind (writeAtomically_calls (fun o ho _ => h o ho) _ _) fun committed => ?_
    cases committed with
    | error e => exact .ret _
    | ok u =>
      exact .bind (.perform (h (.remove _) trivial)) fun _ =>
        .bind (.perform (h (.remove _) trivial)) fun _ => .ret _

end

theorem Program.Calls.runWrite {c : Command} {takeOwnGuard : Bool}
    (hlocks : takeOwnGuard = true → ∀ o, ServerOp.Plumbing o → ok o)
    (hmutate : (mutateAndLog cfg c.env c.frame).Calls ok) :
    (RocketMem.runWrite cfg takeOwnGuard c.env c.frame).Calls ok := by
  cases takeOwnGuard with
  | false => exact .bind hmutate fun _ => .ret _
  | true =>
    exact .bind (lockKeys_calls (hlocks rfl) _) fun _ => .bind hmutate fun _ =>
      .bind (unlockShards_calls (hlocks rfl)) fun _ => .ret _

section

variable (h : ∀ o, ServerOp.Plumbing o → o.Lockless → ok o)

include h

theorem dispatchAndLogGated_calls (takeOwnGuard : Bool)
    (hlocks : takeOwnGuard = true → ∀ o, ServerOp.Plumbing o → ok o) {c : Command}
    (hc : c.answered = none → c.Within ok) : (dispatchAndLogGated cfg takeOwnGuard c).Calls ok := by
  unfold dispatchAndLogGated
  split
  · exact .ret _
  · next hnone =>
    have hwithin := hc hnone
    split_ifs with hsave hrewrite
    · exact handleSave_calls cfg (hwithin.files (.inl hsave)) _
    · exact handleBgrewriteaof_calls cfg (hwithin.files (.inr hrewrite)) _
    · exact runPublish_calls h _
    · exact .runWrite cfg hlocks (mutateAndLog_calls cfg h hwithin)
    · exact hwithin.engine

theorem runQueued_calls {queued : List Command}
    (hqueued : ∀ c ∈ queued, c.answered = none → c.Within ok) :
    (runQueued cfg queued).Calls ok := by
  induction queued with
  | nil => exact .ret _
  | cons c queued ih =>
    refine .bind (dispatchAndLogGated_calls cfg h false nofun (hqueued c List.mem_cons_self)) fun _ => ?_
    exact .bind (ih fun c' hc' => hqueued c' (List.mem_cons_of_mem c hc')) fun _ => .ret _

theorem runBatch_calls (hmarkers : ∀ mk, ok (.append (markerFrame mk))) {queued : List Command}
    (hqueued : ∀ c ∈ queued, c.answered = none → c.Within ok) : (runBatch cfg queued).Calls ok := by
  unfold runBatch
  split
  · exact .bind (appendTransactionMarker_calls cfg h (hmarkers .multi)) fun _ =>
      .bind (runQueued_calls cfg h hqueued) fun _ =>
        .bind (appendTransactionMarker_calls cfg h (hmarkers .exec)) fun _ => .ret _
  · exact runQueued_calls cfg h hqueued

end

theorem request_calls_within (h : ∀ o, ServerOp.Plumbing o → ok o) {r : Request}
    (hmarkers : ∀ queued, r = .exec queued → ∀ mk, ok (.append (markerFrame mk)))
    (hr : ∀ c ∈ r.commands, c.answered = none → c.Within ok) : (r.program cfg).Calls ok := by
  have hinner : ∀ o, ServerOp.Plumbing o → o.Lockless → ok o := fun o ho _ => h o ho
  cases r with
  | single c => exact dispatchAndLogGated_calls cfg hinner true (fun _ => h) (hr c List.mem_cons_self)
  | exec queued =>
    exact .bind (lockKeys_calls h _) fun _ =>
      .bind (runBatch_calls cfg hinner (hmarkers queued rfl) hr) fun _ =>
        .bind (unlockShards_calls h) fun _ => .ret _
  | psync env =>
    exact .bind (lockKeys_calls h []) fun _ => .bind (.perform (h (.fanout _) trivial)) fun _ =>
      .bind (snapshot_calls hinner env _) fun _ => .bind (.perform (h (.fanout _) trivial)) fun _ =>
        .bind (unlockShards_calls h) fun _ => .ret _
  | fsync => exact .bind (.perform (h .flush trivial)) fun _ => .ret _

theorem request_calls_of (h : ∀ o, ServerOp.Around o → ok o) {r : Request}
    (hr : ∀ c ∈ r.commands, c.answered = none → c.program.Calls ok) : (r.program cfg).Calls ok :=
  request_calls_within cfg (fun o ho => h o ho.around) (fun _ _ _ => h (.append _) trivial)
    fun c hc hnone => ⟨hr c hc hnone, fun _ f _ => h (.append f) trivial, fun _ => h⟩

theorem request_calls (h : ∀ o, ServerOp.Requested o → ok o) (r : Request) :
    (r.program cfg).Calls ok :=
  request_calls_of cfg (fun o ho => h o ho.requested) fun c _ _ =>
    liftEngine_calls_any (fun o => h (.engine c.env o) trivial) _

end RocketMem
