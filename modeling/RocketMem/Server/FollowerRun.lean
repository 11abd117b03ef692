import RocketMem.Server.Follower

namespace RocketMem

open List

variable {F : Type} [F64 F] {st loaded : Store F}

def FollowerOp.Notes : FollowerOp → Prop
  | loadGeneration | storeLinkUp _ | storeSlaveOffset _ | addSlaveOffset _ => True
  | _ => False

/-- What a discipline has to say about the parts of a replication task, so that it says as much
about the task. `P` is what the task knows between two steps. -/
structure Following (d : Discipline (ServerOp F) (Node F)) (cfg : Settings)
    (permits : Nat → Option Fault → ServerOp F → Node F → Prop) (i : Nat)
    (P : Node F → Prop) : Prop where
  stable : d.Stable i P
  unwind : ∀ s, d.inv s → P s →
    d.Keeps i s ((server F cfg).unwind i s) ∧ d.absent i ((server F cfg).unwind i s)
  await : ∀ ready, d.Triple (server F cfg) permits i P (await ready) fun _ => P
  note : ∀ o : FollowerOp, o.Notes →
    d.Triple (server F cfg) permits i P (perform (.follow o)) fun _ => P
  load : ∀ env blob, d.Triple (server F cfg) permits i P (loadSnapshot env blob) fun _ => P
  apply : ∀ env frame, d.Triple (server F cfg) permits i P (applyReplicated env frame) fun _ => P

namespace Following

variable {d : Discipline (ServerOp F) (Node F)} {cfg : Settings}
  {permits : Nat → Option Fault → ServerOp F → Node F → Prop} {i : Nat}
  {P : Node F → Prop} (h : Following d cfg permits i P)

include h

theorem ret {α : Type} (a : α) :
    d.Triple (server F cfg) permits i P (pure a : ServerProgram F α) fun _ => P :=
  .ret h.stable fun _ _ hs => hs

theorem isStale (mine : UInt64) : d.Triple (server F cfg) permits i P (isStale mine) fun _ => P :=
  .bind (h.note .loadGeneration trivial) fun _ => h.ret _

theorem applyEach (env : Env) (frames : List Frame) :
    d.Triple (server F cfg) permits i P (frames.forM (applyReplicated env)) fun _ => P := by
  induction frames with
  | nil => exact h.ret _
  | cons f frames ih => exact .bind (h.apply env f) fun _ => ih

theorem followStream (mine : UInt64) (turns : List Turn) (g : TransactionGrouper)
    (stream : Bytes) :
    d.Triple (server F cfg) permits i P (followStream mine turns g stream) fun _ => P := by
  induction turns generalizing g stream with
  | nil => exact h.ret _
  | cons turn turns ih =>
    refine .bind (h.await turn.ready) fun _ => ?_
    split
    · exact .halt h.stable h.unwind
    · exact h.ret _
    · refine .bind (h.isStale mine) fun stale => ?_
      cases stale <;> exact h.ret _
    · refine .bind (h.isStale mine) fun stale => ?_
      cases stale with
      | true => exact h.ret _
      | false =>
        refine .bind (h.applyEach _ _) fun _ => ?_
        exact .bind (h.note (.addSlaveOffset _) trivial) fun _ => ih _ _

theorem connectAndSync (mine : UInt64) (a : Attempt) :
    d.Triple (server F cfg) permits i P (connectAndSync mine a) fun _ => P := by
  refine .bind (h.await _) fun _ => ?_
  split
  · refine .bind (h.isStale mine) fun stale => ?_
    cases stale with
    | true => exact h.ret _
    | false =>
      refine .bind (h.load _ _) fun loaded => ?_
      cases loaded with
      | none => exact h.ret _
      | some offset =>
        refine .bind (h.isStale mine) fun stale => ?_
        cases stale with
        | true => exact h.ret _
        | false =>
          refine .bind (h.note (.storeSlaveOffset _) trivial) fun _ => ?_
          refine .bind (h.note (.storeLinkUp true) trivial) fun _ => ?_
          exact .bind (h.await _) fun _ => h.followStream mine _ _ _
  · exact .halt h.stable h.unwind
  · exact h.ret _
  · exact h.ret _

theorem replicationClientLoop {Q : Frame → Node F → Prop}
    (hdone : d.Triple (server F cfg) permits i P taskDone Q) (mine : UInt64)
    (attempts : List Attempt) :
    d.Triple (server F cfg) permits i P (replicationClientLoop mine attempts) Q := by
  induction attempts with
  | nil => exact hdone
  | cons a attempts ih =>
    refine .bind (h.isStale mine) fun stale => ?_
    cases stale with
    | true => exact hdone
    | false =>
      refine .bind (h.connectAndSync mine a) fun _ => ?_
      refine .bind (h.note (.storeLinkUp false) trivial) fun _ => ?_
      exact .bind (h.await _) fun _ => ih

end Following

def firstShard : Fin shardCount := ⟨0, by decide⟩

theorem loadSnapshot_eq {env : Env} {blob : Bytes} {offset : Nat}
    (hload : deserialize env.clock st blob = .ok (offset, loaded)) :
    ∃ entries : List (SnapshotEntry F), loadSnapshot env blob = (do
      perform (.note .loading)
      loadEntries env entries
      perform (.note .stepped)
      return some offset) := by
  by_cases hlen : blob.length < 8
  · rw [deserialize, if_pos hlen] at hload
    cases hload
  · rw [deserialize, if_neg hlen] at hload
    rw [loadSnapshot, if_neg hlen]
    cases hdecode : (BinCodec.list (entryCodec (F := F))).decode (blob.drop 8) with
    | none =>
      simp only [hdecode] at hload
      cases hload
    | some decoded =>
      simp only [hdecode] at hload
      obtain ⟨rfl, -⟩ := Prod.mk.inj (Except.ok.inj hload)
      exact ⟨_, rfl⟩

variable (cfg : Settings) (i : Nat) (permits : Nat → Option Fault → ServerOp F → Node F → Prop)
  (hpermits : ∀ x o s, permits i x o s)

include hpermits

theorem isStale_runs (mine : UInt64) (s : Node F) :
    (server F cfg).Runs permits i (isStale mine) s (.ret (s.follower.generation != mine)) s :=
  .bind (.perform none (hpermits _ _ _) rfl) (.refl _ _)

theorem loadSnapshot_begins {env : Env} {blob : Bytes} {offset : Nat}
    (hload : deserialize env.clock st blob = .ok (offset, loaded)) (s : Node F) :
    ∃ k, (server F cfg).Runs permits i (loadSnapshot env blob) s (.call (.clearShard firstShard) k)
      (s.note .loading) := by
  obtain ⟨entries, heq⟩ := loadSnapshot_eq hload
  rw [heq]
  exact ⟨_, .bind (.perform none (hpermits _ _ _) rfl) (.refl _ _)⟩

theorem loadSnapshot_runs {env : Env} {blob : Bytes} {offset : Nat}
    (hload : deserialize env.clock st blob = .ok (offset, loaded)) (s : Node F) :
    ∃ s', (server F cfg).Runs permits i (loadSnapshot env blob) s (.ret (some offset)) s' ∧
      s'.follower = s.follower := by
  have hop (o : ServerOp F) (ho : o.Elsewhere) (u : o.Ret) (s₁ s₂ : Node F)
      (hx : (server F cfg).exec i none o s₁ = some (u, s₂)) (h : s₁.follower = s.follower) :
      (server F cfg).Runs permits i (perform o) s₁ (.ret u) s₂ ∧ s₂.follower = s.follower :=
    ⟨.perform none (hpermits _ _ _) hx, (ho.exec hx).trans h⟩
  obtain ⟨entries, heq⟩ := loadSnapshot_eq hload
  rw [heq]
  obtain ⟨hnote, h₁⟩ := hop (.note .loading) trivial () s (s.note .loading) rfl rfl
  have hshard (j : Fin shardCount) (s₁ : Node F) (h : s₁.follower = s.follower) :
      ∃ s₂, (server F cfg).Runs permits i (perform (.clearShard j)) s₁ (.ret ()) s₂ ∧
        s₂.follower = s.follower :=
    ⟨_, hop (.clearShard j) trivial () s₁ _ rfl h⟩
  have hentry (e : SnapshotEntry F) (s₁ : Node F) (h : s₁.follower = s.follower) :
      ∃ s₂, (server F cfg).Runs permits i (loadOne env e) s₁ (.ret ()) s₂ ∧
        s₂.follower = s.follower := by
    obtain ⟨hset, hs₂⟩ := hop (.engine env (.key e.1 (.set e.2.1))) trivial () s₁ _ rfl h
    unfold loadOne
    cases e.2.2 with
    | none => exact ⟨_, hset.bind (.refl _ _), hs₂⟩
    | some deadline =>
      obtain ⟨hexpire, hs₃⟩ :=
        hop (.engine env (.key e.1 (.expireAt deadline))) trivial _ _ _ rfl hs₂
      exact ⟨_, hset.bind (hexpire.bind (.refl _ _)), hs₃⟩
  obtain ⟨s₂, hclear, h₂⟩ := Machine.Runs.forM hshard (List.finRange shardCount) h₁
  obtain ⟨s₃, hentries, h₃⟩ := Machine.Runs.forM hentry entries h₂
  obtain ⟨hstepped, h₄⟩ := hop (.note .stepped) trivial () s₃ (s₃.note .stepped) rfl h₃
  exact ⟨_, hnote.bind ((hclear.bind hentries).bind (hstepped.bind (.refl _ _))), h₄⟩

end RocketMem
