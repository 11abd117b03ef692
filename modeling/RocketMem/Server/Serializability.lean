import RocketMem.Server.Serial

namespace RocketMem

open Option Function Critical

variable {F : Type} [F64 F] {w : Replayer F} {cfg : Settings}
  {permits : Nat → Option Fault → ServerOp F → Node F → Prop} {i : Nat}
  {L : Finset (Fin shardCount)} {A B C : Keyspace F}

theorem EngineOp.exec_key_live {env : Env} {c : Clock} (henv : env.clock = c) (key : Bytes)
    (op : KeyOp F) (st : Store F) :
    (EngineOp.exec env (.key key op) st).1 = (op.onSlot c (st.live c key)).1 ∧
      (EngineOp.exec env (.key key op) st).2.live c =
        Function.update (st.live c) key (op.onSlot c (st.live c key)).2 := by
  subst henv
  exact KeyOp.exec_live env.clock key st op

/-- A command that names only keys behind the thread's guards runs as it would alone on the
keyspace `A'`, whatever the other threads do meanwhile. -/
theorem liftEngine_triple {α : Type} {env : Env} (henv : env.clock = w.env.clock)
    {p : EngineProgram F α} (hp : p.Calls (EngineOp.On fun k => shardIndex k ∈ L))
    (hA : A.Storable w.env.clock) {A' : Keyspace F}
    (hhalt : ∀ A'', runKeyspace w.env.clock p A' = (none, A'') → A'' = A) :
    (serial w).Triple (server F cfg) permits i (Critical w i L A' A A) (liftEngine env p)
      fun r s => ∃ A'', runKeyspace w.env.clock p A' = (some r, A'') ∧ Critical w i L A'' A A s := by
  induction hp generalizing A' with
  | ret a => exact .ret stable fun s _ hs => ⟨A', rfl, hs⟩
  | halt =>
    refine .halt stable fun s hinv hs => ?_
    obtain rfl := hhalt A' rfl
    exact Synced.unwind hinv ⟨A', hA, hs⟩ cfg
  | @call o k ho _ ih =>
    cases o with
    | key key op =>
      intro s₀ hs₀ s hrely hinv
      have hs := stable s₀ s hrely hinv hs₀
      refine ⟨trivial, fun x r s' _ hx => ?_⟩
      obtain ⟨rfl, rfl⟩ := Prod.mk.inj (some.inj hx)
      obtain ⟨hret, hlive⟩ := EngineOp.exec_key_live henv key op s.store
      rw [hs.live ho] at hret hlive
      constructor
      · refine serial_keeps hinv rfl (fun k' hk' => ?_) hinv.logged hinv.returns
        have hne : k' ≠ key := by
          rintro rfl
          exact hk' ((hs.guards _).mpr ho)
        exact Prod.ext ((congrFun hlive k').trans (update_of_ne hne _ _)) rfl
      · have hnext := ih (op.onSlot w.env.clock (A' key)).1 hhalt
        rw [← hret] at hnext
        refine Discipline.Holds.mono ?_ (hnext _ ⟨hs.guards, fun k' hk' => ?_⟩)
        · rintro a s' - ⟨A'', hrun, hcrit⟩
          rw [hret] at hrun
          exact ⟨A'', hrun, hcrit⟩
        · refine Prod.ext ((congrFun hlive k').trans ?_) (Prod.ext (hs.logged hk') (hs.sent hk'))
          show _ = Function.update A' key (op.onSlot w.env.clock (A' key)).2 k'
          by_cases hne : k' = key
          · subst hne
            rw [update_self, update_self]
          · rw [update_of_ne hne, update_of_ne hne, hs.live hk']
    | _ => exact ho.elim

structure Guarded (w : Replayer F) (L : Finset (Fin shardCount)) (frame : Frame) : Prop where
  isWrite : (extractWriteCommandName frame).isSome
  keys : ∀ k ∈ commandKeys frame, shardIndex k ∈ L
  fits : TtlFits w.env.clock frame

section

variable {frame : Frame}

theorem Guarded.touches (h : Guarded w L frame) :
    (dispatch w.env frame : EngineProgram F Frame).Calls
      (EngineOp.On fun k => shardIndex k ∈ L) := by
  obtain ⟨c, hc⟩ := isSome_iff_exists.mp h.isWrite
  exact (dispatch_atomic w.unlimited hc).touches.mono fun _ => EngineOp.On.mono h.keys

theorem Guarded.apply_storable (h : Guarded w L frame) {ks : Keyspace F}
    (hks : ks.Storable w.env.clock) : (w.apply frame ks).Storable w.env.clock := by
  obtain ⟨c, hc⟩ := isSome_iff_exists.mp h.isWrite
  exact dispatch_storable w.unlimited hc h.fits hks

theorem Guarded.apply_congr (h : Guarded w L frame) {ks ks' : Keyspace F}
    (hks : ∀ k, shardIndex k ∈ L → ks k = ks' k) {k : Bytes} (hk : shardIndex k ∈ L) :
    w.apply frame ks k = w.apply frame ks' k :=
  (runKeyspace_congr h.touches w.env.clock hks).2 k hk

theorem Guarded.apply_frame (h : Guarded w L frame) (ks : Keyspace F) {k : Bytes}
    (hk : shardIndex k ∉ L) : w.apply frame ks k = ks k :=
  runKeyspace_frame h.touches w.env.clock ks hk

theorem Guarded.returns_congr (h : Guarded w L frame) {ks ks' : Keyspace F}
    (hks : ∀ k, shardIndex k ∈ L → ks k = ks' k) :
    (runKeyspace w.env.clock (dispatch w.env frame) ks).1 =
      (runKeyspace w.env.clock (dispatch w.env frame) ks').1 :=
  (runKeyspace_congr h.touches w.env.clock hks).1

theorem markerFrame_silent (mk : Marker) : extractWriteCommandName (markerFrame mk) = none := by
  by_contra h
  have hplain := marker_of_isWrite (isSome_iff_ne_none.mpr h)
  rw [marker_markerFrame] at hplain
  cases hplain

theorem publish_silent (h : isNamed "PUBLISH" frame = true) :
    extractWriteCommandName frame = none :=
  named_silent h (by decide)

end

section

variable {frame : Frame}

theorem broadcast_triple (hframe : Guarded w L frame) :
    (serial w).Triple (server F cfg) permits i (Critical w i L A B C)
      (perform (.broadcast frame)) fun _ => Critical w i L A B (w.apply frame C) := by
  refine .perform stable (fun _ => stable) (fun _ _ _ => trivial) ?_
  intro s hinv hs x r s' _ hx
  obtain rfl := congrArg Prod.snd (some.inj hx)
  have hC : ∀ k, shardIndex k ∈ L → w.after s.sent k = C k := fun k => hs.sent
  have hafter := w.after_concat s.sent (marker_of_isWrite hframe.isWrite)
  constructor
  · refine serial_keeps hinv rfl (fun k hk => ?_) hinv.logged hinv.returns
    refine Prod.ext rfl (Prod.ext rfl ?_)
    dsimp only [Replayer.view]
    rw [hafter, hframe.apply_frame _ fun hkL => hk ((hs.guards _).mpr hkL)]
  · refine ⟨hs.guards, fun k hk => ?_⟩
    refine Prod.ext (hs.live hk) (Prod.ext (hs.logged hk) ?_)
    dsimp only [Replayer.view]
    rw [hafter, hframe.apply_congr hC hk]

theorem broadcast_silent (hframe : extractWriteCommandName frame = none) :
    (serial w).Triple (server F cfg) permits i (Synced w i L) (perform (.broadcast frame))
      fun _ => Synced w i L := by
  refine .perform Synced.stable (fun _ => Synced.stable) (fun _ _ _ => trivial) ?_
  intro s hinv hs x r s' _ hx
  obtain rfl := congrArg Prod.snd (some.inj hx)
  have hafter := w.after_silent s.sent hframe
  have hview (k : Bytes) : w.view { s with
      sent := s.sent ++ [frame], fanout := s.fanout.broadcast i frame } k = w.view s k := by
    dsimp only [Replayer.view]
    rw [hafter]
    rfl
  have hkeeps : (serial w).Keeps i s { s with
      sent := s.sent ++ [frame], fanout := s.fanout.broadcast i frame } :=
    serial_keeps hinv rfl (fun k _ => hview k) hinv.logged hinv.returns
  refine ⟨hkeeps, synced_of_level hkeeps.1 hs.guards fun k hk => ?_⟩
  rw [hview]
  exact hs.level hk

theorem replicate_triple (hframe : Guarded w L frame) :
    (serial w).Triple (server F cfg) permits i (Critical w i L A B C) (replicate frame)
      fun _ => Critical w i L A B (w.apply frame C) :=
  .bind (quiet_critical trivial) fun _ => broadcast_triple hframe

theorem replicate_silent (hframe : extractWriteCommandName frame = none) :
    (serial w).Triple (server F cfg) permits i (Synced w i L) (replicate frame)
      fun _ => Synced w i L :=
  .bind (quiet_triple (.perform trivial)) fun _ => broadcast_silent hframe

theorem replicateAll_triple {frames : List Frame} (hframes : ∀ f ∈ frames, Guarded w L f) :
    (serial w).Triple (server F cfg) permits i (Critical w i L A B C)
      (replicateAll frames) fun _ => Critical w i L A B (applyAll w.env frames C) := by
  induction frames generalizing C with
  | nil => exact .ret stable fun _ _ hs => hs
  | cons frame frames ih =>
    refine .bind (replicate_triple (hframes frame List.mem_cons_self)) fun _ => ?_
    exact ih fun f hf => hframes f (List.mem_cons_of_mem frame hf)

variable (hL : L.Nonempty)

include hL

theorem Critical.append_assert {s : Node F} (hs : Critical w i L A B C s) (frame : Frame) :
    SerialAssert w i (.append frame) s := by
  obtain ⟨j, hj⟩ := hL
  exact ⟨j, (hs.guards j).mpr hj⟩

theorem append_triple (hframe : Guarded w L frame)
    (hreturns : (runKeyspace w.env.clock (dispatch w.env frame) B).1 ≠ none) :
    (serial w).Triple (server F cfg) permits i (Critical w i L A B C)
      (perform (.append frame)) fun _ => Critical w i L A (w.apply frame B) C := by
  refine .perform stable (fun _ => stable) (fun s _ hs => hs.append_assert hL frame) ?_
  intro s hinv hs x r s' _ hx
  obtain ⟨disk, hrest⟩ := Node.append_frame i x frame s
  obtain rfl := (congrArg Prod.snd (some.inj hx)).symm.trans hrest
  have hB : ∀ k, shardIndex k ∈ L → w.after s.frames k = B k := fun k => hs.logged
  have hplain := marker_of_isWrite hframe.isWrite
  have hframes : (s.log ++ [(i, frame)]).map Prod.snd = s.frames ++ [frame] := List.map_append
  have hafter : w.after ((s.log ++ [(i, frame)]).map Prod.snd) =
      w.apply frame (w.after s.frames) := by
    rw [hframes, w.after_concat _ hplain]
  have hview (k : Bytes) : w.view { s with log := s.log ++ [(i, frame)], disk := disk } k =
      (s.store.live w.env.clock k, w.apply frame (w.after s.frames) k, w.after s.sent k) := by
    rw [← hafter]
    rfl
  constructor
  · refine serial_keeps hinv rfl (fun k hk => ?_) ?_ ?_
    · rw [hview, hframe.apply_frame _ fun hkL => hk ((hs.guards _).mpr hkL)]
      rfl
    · exact hafter ▸ hframe.apply_storable hinv.logged
    · rw [Node.frames, hframes, commands_append, commands_of_none hplain, returns_append]
      refine ⟨hinv.returns, ?_, trivial⟩
      rwa [← hframe.returns_congr hB] at hreturns
  · refine ⟨hs.guards, fun k hk => ?_⟩
    rw [hview, hframe.apply_congr hB hk, hs.live hk, hs.sent hk]

theorem appendEncoded_triple (hframe : Guarded w L frame)
    (hreturns : (runKeyspace w.env.clock (dispatch w.env frame) B).1 ≠ none) :
    (serial w).Triple (server F cfg) permits i (Critical w i L A B C)
      (appendEncoded cfg frame) fun _ => Critical w i L A (w.apply frame B) C := by
  refine .bind (append_triple hL hframe hreturns) fun written => ?_
  split
  · cases written with
    | error e => exact .ret stable fun _ _ hs => hs
    | ok u => exact quiet_critical trivial
  · exact .ret stable fun _ _ hs => hs

theorem appendAll_triple {frames : List Frame} (hframes : ∀ f ∈ frames, Guarded w L f)
    (hreturns : Returns w.env frames B) :
    (serial w).Triple (server F cfg) permits i (Critical w i L A B C)
      (appendAll cfg frames) fun _ => Critical w i L A (applyAll w.env frames B) C := by
  induction frames generalizing B with
  | nil => exact .ret stable fun _ _ hs => hs
  | cons frame frames ih =>
    have htail := ih (fun f hf => hframes f (List.mem_cons_of_mem frame hf)) hreturns.2
    refine .bind (appendEncoded_triple hL (hframes frame List.mem_cons_self) hreturns.1) fun _ => ?_
    exact htail.bind fun _ => .ret stable fun _ _ hs => hs

theorem append_silent (hframe : extractWriteCommandName frame = none)
    (hreturns : marker frame ≠ none) :
    (serial w).Triple (server F cfg) permits i (Synced w i L) (perform (.append frame))
      fun _ => Synced w i L := by
  refine .perform Synced.stable (fun _ => Synced.stable) ?_ ?_
  · rintro s - ⟨A, -, hs⟩
    exact hs.append_assert hL frame
  · intro s hinv hs x r s' _ hx
    obtain ⟨disk, hrest⟩ := Node.append_frame i x frame s
    obtain rfl := (congrArg Prod.snd (some.inj hx)).symm.trans hrest
    have hframes : (s.log ++ [(i, frame)]).map Prod.snd = s.frames ++ [frame] := List.map_append
    have hafter : w.after ((s.log ++ [(i, frame)]).map Prod.snd) = w.after s.frames := by
      rw [hframes, w.after_silent _ hframe]
    have hview (k : Bytes) : w.view { s with log := s.log ++ [(i, frame)], disk := disk } k =
        w.view s k := by
      refine Prod.ext rfl (Prod.ext (congrFun hafter k) rfl)
    have hkeeps : (serial w).Keeps i s { s with log := s.log ++ [(i, frame)], disk := disk } := by
      obtain ⟨mk, hmk⟩ := ne_none_iff_exists'.mp hreturns
      refine serial_keeps hinv rfl (fun k _ => hview k) (hafter ▸ hinv.logged) ?_
      rw [Node.frames, hframes, commands_append, commands_of_some hmk, List.append_nil]
      exact hinv.returns
    refine ⟨hkeeps, synced_of_level hkeeps.1 hs.guards fun k hk => ?_⟩
    rw [hview]
    exact hs.level hk

theorem appendTransactionMarker_triple (mk : Marker) :
    (serial w).Triple (server F cfg) permits i (Synced w i L)
      (appendTransactionMarker cfg mk) fun _ => Synced w i L := by
  have hsilent := markerFrame_silent mk
  have happend : (serial w).Triple (server F cfg) permits i (Synced w i L)
      (perform (.append (markerFrame mk))) fun _ => Synced w i L :=
    append_silent hL hsilent (by rw [marker_markerFrame]; exact nofun)
  refine .bind (.bind happend fun written => ?_) fun _ => replicate_silent hsilent
  split
  · cases written with
    | error e => exact .ret Synced.stable fun _ _ hs => hs
    | ok u => exact quiet_triple (.perform trivial)
  · exact .ret Synced.stable fun _ _ hs => hs

end

/-- A command on the replayer's frozen clock, without a memory ceiling, that names no time beyond
`i64` milliseconds and is logged as it is read. -/
structure Command.Admitted (w : Replayer F) (c : Command) : Prop where
  clock : c.env.clock = w.env.clock
  unlimited : c.env.maxmemory = none
  fits : TtlFits w.env.clock c.frame
  read : misreadSetKey c.frame = none

variable {c : Command}

theorem Command.Admitted.guarded (h : c.Admitted w)
    (hkeys : ∀ k ∈ commandKeys c.frame, shardIndex k ∈ L)
    (hwrite : (extractWriteCommandName c.frame).isSome) {ks ks' : Keyspace F} {reply : Frame}
    (hrun : runKeyspace w.env.clock (dispatch c.env c.frame) ks = (some reply, ks')) :
    ∀ f ∈ toLog c.env.clock c.frame reply, Guarded w L f := by
  intro f hf
  obtain ⟨name, hname⟩ := isSome_iff_exists.mp hwrite
  obtain ⟨-, ⟨raw, args, hframe, -⟩ | hreject⟩ := write_frame_cases (F := F) hname
  · rw [hframe] at hf
    have hmem := toLog_keys c.env.clock hf
    rw [← hframe] at hmem
    refine ⟨toLog_isWrite _ _ reply f hf, fun k hk => hkeys k (hmem hk), ?_⟩
    have hfits := h.fits
    rw [hframe, ← h.clock] at hfits
    rw [← h.clock]
    exact toLog_ttlFits hfits hf
  · rw [hreject] at hrun
    cases hrun
    have hnil : toLog c.env.clock c.frame invalidRequest = [] := by
      simp [toLog, invalidRequest, Frame.isError]
    rw [hnil] at hf
    cases hf

/-- Under guards that cover its keys, a write command leaves the store, the log and the stream
level. -/
theorem mutateAndLog_triple (h : c.Admitted w) (hL : L.Nonempty)
    (hkeys : ∀ k ∈ commandKeys c.frame, shardIndex k ∈ L)
    (hwrite : (extractWriteCommandName c.frame).isSome) :
    (serial w).Triple (server F cfg) permits i (Synced w i L) (mutateAndLog cfg c.env c.frame)
      fun _ => Synced w i L := by
  obtain ⟨name, hname⟩ := isSome_iff_exists.mp hwrite
  rintro s ⟨A, hA, hs⟩
  have hatomic := dispatch_atomic (F := F) h.unlimited hname
  rw [h.clock] at hatomic
  have htouches := hatomic.touches.mono fun _ => EngineOp.On.mono hkeys
  have hrunning : (serial w).Triple (server F cfg) permits i (Critical w i L A A A)
      (liftEngine c.env (dispatch c.env c.frame)) fun reply s =>
        ∃ A'', runKeyspace w.env.clock (dispatch c.env c.frame) A = (some reply, A'') ∧
          Critical w i L A'' A A s := by
    refine liftEngine_triple h.clock htouches hA fun A'' hhalt => ?_
    have hsame := hatomic.unchanged A hA.sound
    rw [hhalt] at hsame
    exact hsame nofun
  have hrest : ∀ reply, (serial w).Triple (server F cfg) permits i
      (fun s => ∃ A'', runKeyspace w.env.clock (dispatch c.env c.frame) A = (some reply, A'') ∧
        Critical w i L A'' A A s)
      (do
        let failed ← appendAll cfg (toLog c.env.clock c.frame reply)
        replicateAll (toLog c.env.clock c.frame reply)
        return (reply, failed))
      fun _ => Synced w i L := by
    rintro reply s ⟨A'', hrun, hs⟩
    have hA'' : A''.Storable w.env.clock := by
      have hfits := h.fits
      have hA' := hA
      rw [← h.clock] at hfits hA' hrun ⊢
      have hstorable := dispatch_storable h.unlimited hname hfits hA'
      rwa [hrun] at hstorable
    have hguarded := h.guarded hkeys hwrite hrun
    obtain ⟨hreturns, happly⟩ : Returns w.env (toLog c.env.clock c.frame reply) A ∧
        applyAll w.env (toLog c.env.clock c.frame reply) A = A'' :=
      toLog_replays h.clock.symm h.unlimited w.unlimited (h.clock ▸ hA.sound) hwrite
        (h.clock ▸ hrun) (h.clock ▸ h.fits) h.read
    refine Discipline.Triple.bind (appendAll_triple hL hguarded hreturns) (fun failed => ?_) s hs
    refine .bind (replicateAll_triple hguarded) fun _ => ?_
    rw [happly]
    exact .ret stable fun s _ hs => ⟨A'', hA'', hs⟩
  exact Discipline.Triple.bind hrunning hrest s hs

theorem read_triple {env : Env} (henv : env.clock = w.env.clock) {frame : Frame}
    (hread : extractWriteCommandName frame = none) :
    (serial w).Triple (server F cfg) permits i (Synced w i L)
      (liftEngine env (dispatch env frame)) fun _ => Synced w i L :=
  quiet_triple (liftEngine_calls (dispatch_reads hread) fun _ ho => ⟨henv, ho⟩)

theorem runPublish_triple {frame : Frame} (hname : isNamed "PUBLISH" frame = true) :
    (serial w).Triple (server F cfg) permits i (Synced w i L) (runPublish frame)
      fun _ => Synced w i L := by
  have hsilent := publish_silent hname
  unfold runPublish
  split
  · refine .bind (quiet_triple (.perform trivial)) fun delivered => ?_
    exact .bind (replicate_silent hsilent) fun _ => .ret Synced.stable fun _ _ hs => hs
  · exact .ret Synced.stable fun _ _ hs => hs

end RocketMem
