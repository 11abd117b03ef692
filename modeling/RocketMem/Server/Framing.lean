import RocketMem.Server.Contract
import RocketMem.Server.GroupedLog

namespace RocketMem

open List

variable {F : Type} [F64 F]

def Node.ownFrames (i : Nat) (s : Node F) : List Frame :=
  (s.log.filter fun e => e.1 = i).map Prod.snd

def Node.OwnSynced (i : Nat) (s : Node F) : Prop := ∀ e ∈ s.log.drop s.synced, e.1 ≠ i

structure FramingInv (s : Node F) : Prop where
  grouped : (grouped s.log).isSome
  synced : s.synced ≤ s.log.length

structure FramingRely (i : Nat) (s s' : Node F) : Prop where
  guards : ∀ j, s.guards j = some i → s'.guards j = some i
  batch : openBatch s.log = some i ↔ openBatch s'.log = some i
  own : s'.ownFrames i = s.ownFrames i
  synced : s.OwnSynced i → s'.OwnSynced i

def FramingAssert (_ : Nat) (o : ServerOp F) (_ : Node F) : Prop :=
  match o with
  | .append frame => ∃ words, frame = .command words
  | _ => True

def framing : Discipline (ServerOp F) (Node F) where
  inv := FramingInv
  rely := FramingRely
  asserts := FramingAssert
  absent _ _ := True
  rely_refl _ _ := ⟨fun _ h => h, Iff.rfl, rfl, fun h => h⟩
  rely_trans h h' := ⟨fun j hj => h'.guards j (h.guards j hj), h.batch.trans h'.batch,
    h'.own.trans h.own, fun hs => h'.synced (h.synced hs)⟩
  absent_stable _ _ h := h

variable {cfg : Settings} {permits : Nat → Option Fault → ServerOp F → Node F → Prop} {i : Nat}
  {L : Finset (Fin shardCount)} {s s' : Node F}

theorem Node.OwnSynced.unlogged (h : s.OwnSynced i) (hsame : Unlogged s s') : s'.OwnSynced i := by
  intro e he
  rw [hsame.log] at he
  rcases hsame.synced with hsynced | hsynced
  · rw [hsynced] at he
    exact h e he
  · rw [hsynced, drop_length] at he
    cases he

theorem FramingInv.unlogged (h : FramingInv s) (hsame : Unlogged s s') : FramingInv s' := by
  refine ⟨hsame.log ▸ h.grouped, ?_⟩
  rw [hsame.log]
  rcases hsame.synced with hsynced | hsynced
  · rw [hsynced]
    exact h.synced
  · exact hsynced.le

theorem Unlogged.rely {i' : Nat} (hsame : Unlogged s s')
    (hguards : ∀ j, s.guards j = some i' → s'.guards j = some i') : FramingRely i' s s' where
  guards := hguards
  batch := by rw [hsame.log]
  own := by rw [Node.ownFrames, Node.ownFrames, hsame.log]
  synced h := h.unlogged hsame

def ServerOp.Mute : ServerOp F → Prop
  | append _ | unlockShards => False
  | _ => True

theorem ServerOp.Mute.not_isAppend {o : ServerOp F} (h : o.Mute) : ¬ o.IsAppend := by
  intro happend
  cases o with
  | append => exact h
  | _ => exact happend

theorem ServerOp.Mute.ne_unlockShards {o : ServerOp F} (h : o.Mute) : o ≠ .unlockShards := by
  rintro rfl
  exact h

structure Under (A : Node F → Prop) (i : Nat) (L : Finset (Fin shardCount)) (s : Node F) : Prop where
  guards : ∀ j ∈ L, s.guards j = some i
  knows : A s

structure Keepable (A : Node F → Prop) (i : Nat) : Prop where
  stable : framing.Stable i A
  unlogged : ∀ s s', Unlogged s s' → A s → A s'

section

variable {A : Node F → Prop} (hA : Keepable A i)

include hA

theorem Under.stable (L : Finset (Fin shardCount)) : framing.Stable i (Under A i L) :=
  fun s s' hrely hinv h => ⟨fun j hj => hrely.guards j (h.guards j hj),
    hA.stable s s' hrely hinv h.knows⟩

omit hA in
theorem framing_unwind (hinv : FramingInv s) :
    framing.Keeps i s ((server F cfg).unwind i s) ∧
      framing.absent i ((server F cfg).unwind i s) := by
  have hsame : Unlogged s ((server F cfg).unwind i s) := ⟨rfl, .inl rfl⟩
  refine ⟨⟨hinv.unlogged hsame, fun i' hi' => hsame.rely fun j hj => ?_⟩, trivial⟩
  have hne : s.guards j ≠ some i := by
    rw [hj]
    exact fun h => hi' (Option.some.inj h)
  change (if s.guards j = some i then none else s.guards j) = some i'
  rw [if_neg hne, hj]

theorem mute_triple {α : Type} {p : ServerProgram F α} (hp : p.Calls ServerOp.Mute) :
    framing.Triple (server F cfg) permits i (Under A i L) p fun _ => Under A i L := by
  refine .of_calls hp (Under.stable hA L) (fun s hinv _ => framing_unwind hinv) ?_ ?_
  · intro o ho s _ _
    cases o with
    | append => exact ho.elim
    | _ => trivial
  · intro o ho s hinv hs x r s' _ hx
    have hsame := exec_unlogged ho.not_isAppend hx
    refine ⟨⟨hinv.unlogged hsame, fun i' hi' => hsame.rely fun j hj => ?_⟩,
      ⟨fun j hj => ?_, hA.unlogged s s' hsame hs.knows⟩⟩
    · exact exec_holds hx (fun h => absurd h hi') hj
    · exact exec_holds hx (fun _ => ho.ne_unlockShards) (hs.guards j hj)

theorem framing_locking : Locking framing cfg permits i (Under A i) where
  stable := Under.stable hA
  lock j L := by
    have hstable : framing.Stable i fun s => j ∉ L ∧ Under A i (insert j L) s :=
      fun s s' hrely hinv h => ⟨h.1, Under.stable hA _ s s' hrely hinv h.2⟩
    refine .perform (Under.stable hA L) (fun _ => hstable) (fun _ _ _ => trivial) ?_
    intro s hinv hs x r s' _ hx
    have hsame := exec_unlogged (o := .lockShard j) (fun h => h) hx
    have hheld (i' : Nat) (j' : Fin shardCount) (hj' : s.guards j' = some i') :
        s'.guards j' = some i' := exec_holds hx (fun _ => nofun) hj'
    obtain ⟨hfree, rfl⟩ := exec_lockShard hx
    refine ⟨⟨hinv.unlogged hsame, fun i' _ => hsame.rely (hheld i')⟩, fun hj => ?_, ?_, ?_⟩
    · rw [hs.guards j hj] at hfree
      cases hfree
    · intro j' hj'
      rcases Finset.mem_insert.mp hj' with rfl | hj'
      · rw [Node.takeShard_guards, if_pos rfl]
      · exact hheld i j' (hs.guards j' hj')
    · exact hA.unlogged s _ hsame hs.knows
  unlock L := by
    refine .perform (Under.stable hA L) (fun _ => Under.stable hA ∅) (fun _ _ _ => trivial) ?_
    intro s hinv hs x r s' _ hx
    have hsame := exec_unlogged (o := .unlockShards) (fun h => h) hx
    refine ⟨⟨hinv.unlogged hsame, fun i' hi' => hsame.rely fun j hj => ?_⟩,
      ⟨fun j hj => absurd hj (Finset.notMem_empty j), hA.unlogged s s' hsame hs.knows⟩⟩
    exact exec_holds hx (fun h => absurd h hi') hj

theorem framing_persisting : Persisting framing cfg permits i (fun _ => True) (Under A i) where
  locking := framing_locking hA
  file o L ho := mute_triple hA (.perform (by cases o <;> first | exact ho.elim | trivial))
  snapshot env offset _ := mute_triple hA
    (takeSnapshot_calls (fun _ => trivial) (fun _ => trivial) offset)

theorem replicate_framing (frame : Frame) :
    framing.Triple (server F cfg) permits i (Under A i L) (replicate frame) fun _ => Under A i L :=
  mute_triple hA (.bind (.perform trivial) fun _ => .perform trivial)

theorem runPublish_framing (frame : Frame) :
    framing.Triple (server F cfg) permits i (Under A i L) (runPublish frame)
      fun _ => Under A i L := by
  unfold runPublish
  split
  · exact .bind (mute_triple hA (.perform trivial)) fun _ =>
      .bind (replicate_framing hA _) fun _ => .ret (Under.stable hA L) fun _ _ hs => hs
  · exact .ret (Under.stable hA L) fun _ _ hs => hs

end

section

variable {A A' : Node F → Prop} {words : List Bytes}

structure Logs (i : Nat) (frame : Frame) (s s' : Node F) : Prop where
  log : s'.log = s.log ++ [(i, frame)]
  synced : s'.synced = s.synced

theorem Logs.ownFrames {frame : Frame} (h : Logs i frame s s') :
    s'.ownFrames i = s.ownFrames i ++ [frame] := by
  rw [Node.ownFrames, Node.ownFrames, h.log, filter_append, map_append]
  simp

theorem Logs.rely {frame : Frame} {i' : Nat} (h : Logs i frame s s') (hinv : FramingInv s)
    (hi' : i' ≠ i) (hguards : s'.guards = s.guards)
    (hbatch : openBatch s.log = some i' ↔ openBatch s'.log = some i') : FramingRely i' s s' where
  guards j hj := by rw [hguards, hj]
  batch := hbatch
  own := by
    rw [Node.ownFrames, Node.ownFrames, h.log, filter_append, map_append]
    simp [Ne.symm hi']
  synced hs := by
    intro e he
    rw [h.log, h.synced, drop_append_of_le_length hinv.synced] at he
    rcases mem_append.mp he with he | he
    · exact hs e he
    · rw [mem_singleton.mp he]
      exact Ne.symm hi'

theorem append_framing (hA : Keepable A i) (hA' : Keepable A' i)
    (hstep : ∀ s s' x, FramingInv s → A s → permits i x (.append (.command words)) s →
      Logs i (.command words) s s' → (grouped s'.log).isSome ∧
        (∀ i', i' ≠ i → (openBatch s.log = some i' ↔ openBatch s'.log = some i')) ∧ A' s') :
    framing.Triple (server F cfg) permits i (Under A i L) (perform (.append (.command words)))
      fun _ => Under A' i L := by
  refine .perform (Under.stable hA L) (fun _ => Under.stable hA' L) (fun _ _ _ => ⟨words, rfl⟩) ?_
  intro s hinv hs x r s' hp hx
  obtain ⟨disk, hrest⟩ := Node.append_frame i x (.command words) s
  have hs' : s' = (s.append i x (.command words)).2 := (congrArg Prod.snd (Option.some.inj hx)).symm
  rw [hrest] at hs'
  have hlogs : Logs i (.command words) s s' := ⟨by rw [hs'], by rw [hs']⟩
  have hguards : s'.guards = s.guards := by rw [hs']
  obtain ⟨hgrouped, hbatch, hA's⟩ := hstep s s' x hinv hs.knows hp hlogs
  refine ⟨⟨⟨hgrouped, ?_⟩, fun i' hi' => hlogs.rely hinv hi' hguards (hbatch i' hi')⟩,
    ⟨fun j hj => ?_, hA's⟩⟩
  · rw [hlogs.log, hlogs.synced, length_append]
    exact Nat.le_add_right_of_le hinv.synced
  · rw [hguards]
    exact hs.guards j hj

def InBatch (i : Nat) (inside : Prop) (s : Node F) : Prop := openBatch s.log = some i ↔ inside

theorem keepable_inBatch (inside : Prop) : Keepable (F := F) (InBatch i inside) i where
  stable _ _ hrely _ h := hrely.batch.symm.trans h
  unlogged s s' hsame h := by
    rw [InBatch, hsame.log]
    exact h

theorem Logs.batch (h : Logs i (.command words) s s') (hinv : FramingInv s)
    (hw : (extractWriteCommandName (.command words)).isSome) :
    (grouped s'.log).isSome ∧ openBatch s'.log = openBatch s.log := by
  rw [h.log]
  exact openBatch_command hinv.grouped (marker_of_isWrite hw)

theorem appendEncoded_framing (hA' : Keepable A' i) {frame : Frame}
    (h : framing.Triple (server F cfg) permits i (Under A i L) (perform (.append frame))
      fun _ => Under A' i L) :
    framing.Triple (server F cfg) permits i (Under A i L) (appendEncoded cfg frame)
      fun _ => Under A' i L := by
  refine .bind h fun written => ?_
  split
  · cases written with
    | error e => exact .ret (Under.stable hA' L) fun _ _ hs => hs
    | ok u => exact mute_triple hA' (.perform trivial)
  · exact .ret (Under.stable hA' L) fun _ _ hs => hs

theorem appendCommand_framing {inside : Prop}
    (hw : (extractWriteCommandName (.command words)).isSome) :
    framing.Triple (server F cfg) permits i (Under (InBatch i inside) i L)
      (appendEncoded cfg (.command words)) fun _ => Under (InBatch i inside) i L := by
  refine appendEncoded_framing (keepable_inBatch inside)
    (append_framing (keepable_inBatch inside) (keepable_inBatch inside) ?_)
  intro s s' x hinv hs _ hlogs
  obtain ⟨hgrouped, hsame⟩ := hlogs.batch hinv hw
  refine ⟨hgrouped, fun i' _ => by rw [hsame], ?_⟩
  rw [InBatch, hsame]
  exact hs

/-- Nobody opens a transaction while another's is open. -/
def BatchesApart (permits : Nat → Option Fault → ServerOp F → Node F → Prop) : Prop :=
  ∀ i x frame s, permits i x (.append frame) s → marker frame = some .multi →
    openBatch s.log = none ∨ openBatch s.log = some i

theorem markerFrame_command (mk : Marker) : ∃ words, markerFrame mk = .command words := by
  cases mk
  · exact ⟨[txt "MULTI"], rfl⟩
  · exact ⟨[txt "EXEC"], rfl⟩

theorem appendMarker_framing (hA : Keepable A i) (hA' : Keepable A' i)
    {mk : Marker}
    (hstep : ∀ s s' x, FramingInv s → A s → permits i x (.append (markerFrame mk)) s →
      Logs i (markerFrame mk) s s' → (grouped s'.log).isSome ∧
        (∀ i', i' ≠ i → (openBatch s.log = some i' ↔ openBatch s'.log = some i')) ∧ A' s') :
    framing.Triple (server F cfg) permits i (Under A i L) (appendTransactionMarker cfg mk)
      fun _ => Under A' i L := by
  obtain ⟨words, hwords⟩ := markerFrame_command mk
  unfold appendTransactionMarker
  rw [hwords] at hstep ⊢
  exact .bind (appendEncoded_framing hA' (append_framing hA hA' hstep)) fun _ =>
    replicate_framing hA' _

theorem appendMulti_framing (hapart : BatchesApart permits) :
    framing.Triple (server F cfg) permits i (Under (InBatch i False) i L)
      (appendTransactionMarker cfg .multi) fun _ => Under (InBatch i True) i L := by
  refine appendMarker_framing (keepable_inBatch False) (keepable_inBatch True) ?_
  intro s s' x hinv hs hp hlogs
  have hnone : openBatch s.log = none :=
    (hapart i x _ s hp (marker_markerFrame .multi)).resolve_right hs.mp
  obtain ⟨hgrouped, hopen⟩ := openBatch_multi (i := i) hinv.grouped hnone
  rw [InBatch, hlogs.log, hnone, hopen]
  refine ⟨hgrouped, fun i' hi' => ⟨nofun, fun h => absurd (Option.some.inj h).symm hi'⟩, ?_⟩
  exact ⟨fun _ => trivial, fun _ => rfl⟩

theorem appendExec_framing :
    framing.Triple (server F cfg) permits i (Under (InBatch i True) i L)
      (appendTransactionMarker cfg .exec) fun _ => Under (InBatch i False) i L := by
  refine appendMarker_framing (keepable_inBatch True) (keepable_inBatch False) ?_
  intro s s' x hinv hs _ hlogs
  have hopen : openBatch s.log = some i := hs.mpr trivial
  obtain ⟨hgrouped, hclosed⟩ := openBatch_exec (i := i) hinv.grouped hopen
  rw [InBatch, hlogs.log, hclosed, hopen]
  exact ⟨hgrouped, fun i' hi' => ⟨fun h => absurd (Option.some.inj h).symm hi', nofun⟩,
    nofun, False.elim⟩

theorem framing_upholds (inside : Prop) :
    Upholds framing cfg permits i (fun _ => True) (Under (InBatch (F := F) i inside) i) where
  stable := Under.stable (keepable_inBatch inside)
  write _ L _ _ _ hw := mutateAndLog_keeps (Under.stable (keepable_inBatch inside) L) hw
    (mute_triple (keepable_inBatch inside) (liftEngine_calls_any (fun _ => trivial) _))
    (fun _ hwords => appendCommand_framing hwords)
    fun words => replicate_framing (keepable_inBatch inside) (.command words)
  read _ _ _ _ := mute_triple (keepable_inBatch inside) (liftEngine_calls_any (fun _ => trivial) _)
  publish c _ _ _ := runPublish_framing (keepable_inBatch inside) c.frame
  save _ _ _ _ := (framing_persisting (keepable_inBatch inside)).handleSave trivial
  rewrite _ _ _ _ := (framing_persisting (keepable_inBatch inside)).handleBgrewriteaof trivial

theorem framing_contract (hapart : BatchesApart permits) :
    Contract framing cfg permits i (fun _ => True) (Under (InBatch (F := F) i False) i)
      (Under (InBatch i True) i) where
  lockKeys := (framing_locking (keepable_inBatch False)).lockKeys
  unlock := (framing_locking (keepable_inBatch False)).unlock
  outside := framing_upholds False
  inside := framing_upholds True
  multi _ _ := appendMulti_framing hapart
  exec _ _ := appendExec_framing

end

structure Logged (i : Nat) (acked : Prop) (frames : List Frame) (s : Node F) : Prop where
  outside : InBatch i False s
  own : acked → s.ownFrames i = frames
  synced : acked → s.OwnSynced i

theorem keepable_logged (acked : Prop) (frames : List Frame) :
    Keepable (F := F) (Logged i acked frames) i where
  stable s s' hrely hinv h := ⟨(keepable_inBatch False).stable s s' hrely hinv h.outside,
    fun ha => hrely.own.trans (h.own ha), fun ha => hrely.synced (h.synced ha)⟩
  unlogged s s' hsame h := by
    refine ⟨(keepable_inBatch False).unlogged s s' hsame h.outside, fun ha => ?_,
      fun ha => (h.synced ha).unlogged hsame⟩
    rw [Node.ownFrames, hsame.log]
    exact h.own ha

theorem Logged.mono {acked acked' : Prop} {frames : List Frame} (h : Logged i acked frames s)
    (ha : acked' → acked) : Logged i acked' frames s :=
  ⟨h.outside, fun h' => h.own (ha h'), fun h' => h.synced (ha h')⟩

theorem appendEncoded_logged (hpolicy : cfg.policy = .always) {acked : Prop} {frames : List Frame}
    {words : List Bytes} (hw : (extractWriteCommandName (.command words)).isSome) :
    framing.Triple (server F cfg) permits i (Under (Logged i acked frames) i L)
      (appendEncoded cfg (.command words)) fun r =>
        Under (Logged i (acked ∧ r.toBool = true) (frames ++ [.command words])) i L := by
  -- between the append and the fsync the frame is in the log and not yet synced
  have hA : Keepable (F := F) (fun s => InBatch i False s ∧
      (acked → s.ownFrames i = frames ++ [.command words])) i := by
    refine ⟨fun s s' hrely hinv h => ?_, fun s s' hsame h => ?_⟩
    · exact ⟨(keepable_inBatch False).stable s s' hrely hinv h.1, fun ha => hrely.own.trans (h.2 ha)⟩
    · refine ⟨(keepable_inBatch False).unlogged s s' hsame h.1, fun ha => ?_⟩
      rw [Node.ownFrames, hsame.log]
      exact h.2 ha
  have happend : framing.Triple (server F cfg) permits i (Under (Logged i acked frames) i L)
      (perform (.append (.command words))) fun _ => Under (fun s => InBatch i False s ∧
        (acked → s.ownFrames i = frames ++ [.command words])) i L := by
    refine append_framing (keepable_logged acked frames) hA ?_
    intro s s' x hinv hs _ hlogs
    obtain ⟨hgrouped, hsame⟩ := hlogs.batch hinv hw
    refine ⟨hgrouped, fun i' _ => by rw [hsame], ?_, fun ha => ?_⟩
    · rw [InBatch, hsame]
      exact hs.outside
    · rw [hlogs.ownFrames, hs.own ha]
  refine .bind happend fun written => ?_
  rw [if_pos hpolicy]
  cases written with
  | error e =>
    refine .ret (Under.stable hA L) fun s _ hs => ⟨hs.guards, hs.knows.1, ?_, ?_⟩
    · exact fun h => absurd h.2 (by simp [Except.toBool])
    · exact fun h => absurd h.2 (by simp [Except.toBool])
  | ok u =>
    refine .perform (Under.stable hA L) (fun r => Under.stable (keepable_logged _ _) L)
      (fun _ _ _ => trivial) ?_
    intro s hinv hs x r s' _ hx
    have hsame := exec_unlogged (o := .flush) (fun h => h) hx
    refine ⟨⟨hinv.unlogged hsame, fun i' hi' => hsame.rely fun j hj => ?_⟩, ?_⟩
    · exact exec_holds hx (fun h => absurd h hi') hj
    · refine ⟨fun j hj => exec_holds hx (fun _ => nofun) (hs.guards j hj), ?_, fun ha => ?_,
        fun ha => ?_⟩
      · exact (keepable_inBatch False).unlogged s s' hsame hs.knows.1
      · exact ((hA.unlogged s s' hsame hs.knows).2 ha.1)
      · cases x with
        | some fault =>
          cases hx
          exact absurd ha.2 (by simp [Except.toBool])
        | none =>
          cases hx
          intro e he
          rw [show s.flushed.log.drop s.flushed.synced = [] from drop_length] at he
          cases he

theorem appendAll_logged (hpolicy : cfg.policy = .always) {acked : Prop}
    {frames logged : List Frame} (hlogged : ∀ f ∈ logged,
      ∃ words, f = .command words ∧ (extractWriteCommandName (.command words)).isSome) :
    framing.Triple (server F cfg) permits i (Under (Logged i acked frames) i L)
      (appendAll cfg logged) fun failed =>
        Under (Logged i (acked ∧ failed = false) (frames ++ logged)) i L := by
  induction logged generalizing acked frames with
  | nil =>
    refine .ret (Under.stable (keepable_logged acked frames) L) fun s _ hs => ?_
    rw [append_nil]
    exact ⟨hs.guards, hs.knows.mono And.left⟩
  | cons f logged ih =>
    obtain ⟨words, rfl, hw⟩ := hlogged f mem_cons_self
    refine .bind (appendEncoded_logged hpolicy hw) fun r => ?_
    refine .bind (ih fun f' hf' => hlogged f' (mem_cons_of_mem _ hf')) fun failed => ?_
    refine .ret (Under.stable (keepable_logged _ _) L) fun s _ hs => ⟨hs.guards, ?_⟩
    rw [append_assoc] at hs
    refine hs.knows.mono fun h => ?_
    simp only [Bool.or_eq_false_iff, Bool.not_eq_false'] at h
    exact ⟨⟨h.1, h.2.1⟩, h.2.2⟩

theorem runWrite_logged (hpolicy : cfg.policy = .always) {c : Command}
    (hw : (extractWriteCommandName c.frame).isSome) :
    framing.Triple (server F cfg) permits i (Under (Logged i True []) i ∅)
      (runWrite cfg true c.env c.frame) fun reply =>
        Under (Logged i (reply.isError = false) (toLog c.env.clock c.frame reply)) i ∅ := by
  refine .bind ((framing_locking (keepable_logged True [])).lockKeys _) fun _ => ?_
  refine .bind (Q := fun r => Under (Logged i (r.2 = false) (toLog c.env.clock c.frame r.1)) i
    (keyGuards (commandKeys c.frame))) ?_ fun r => ?_
  · refine mutateAndLog_logs hw
      (mute_triple (keepable_logged _ _) (liftEngine_calls_any (fun _ => trivial) _))
      fun reply hlogged => ?_
    refine .bind (appendAll_logged hpolicy hlogged) fun failed => ?_
    refine .bind (replicateAll_keeps (Under.stable (keepable_logged _ _) _) fun f _ =>
      replicate_framing (keepable_logged _ _) f) fun _ => ?_
    refine .ret (Under.stable (keepable_logged _ _) _) fun s _ hs => ⟨hs.guards, ?_⟩
    exact hs.knows.mono fun h => ⟨trivial, h⟩
  · refine .bind ((framing_locking (keepable_logged _ _)).unlock _) fun _ => ?_
    refine .ret (Under.stable (keepable_logged _ _) ∅) fun s _ hs => ⟨hs.guards, ?_⟩
    obtain ⟨reply, failed⟩ := r
    cases failed with
    | true =>
      have herror : replyOrFailure cfg (reply, true) = aofFailedReply := by
        simp [replyOrFailure, hpolicy]
      rw [herror]
      exact ⟨hs.knows.outside, fun h => absurd h (by decide), fun h => absurd h (by decide)⟩
    | false =>
      have hsame : replyOrFailure cfg (reply, false) = reply := rfl
      rw [hsame]
      exact hs.knows.mono fun _ => rfl

/-- What the return of a request tells of the log: its thread is outside a transaction and, under
`Always`, a write outside MULTI that is answered without an error has been logged and fsynced. -/
structure Returned (cfg : Settings) (r : Request) (i : Nat) (reply : Frame) (s : Node F) : Prop where
  outside : InBatch i False s
  logged : ∀ c, r = .single c → c.answered = none → (extractWriteCommandName c.frame).isSome →
    cfg.policy = .always → Logged i (reply.isError = false) (toLog c.env.clock c.frame reply) s

theorem request_framing (hapart : BatchesApart permits) (r : Request) :
    framing.Triple (server F cfg) permits i (Under (Logged i True []) i ∅) (r.program cfg)
      (Returned cfg r i) := by
  have houtside (s : Node F) (h : Under (Logged i True []) i ∅ s) : Under (InBatch i False) i ∅ s :=
    ⟨h.guards, h.knows.outside⟩
  cases r with
  | single c =>
    by_cases hwrite : c.answered = none ∧ (extractWriteCommandName c.frame).isSome ∧
      cfg.policy = .always
    · obtain ⟨hanswered, hw, hpolicy⟩ := hwrite
      rw [Request.program, gated_write hanswered hw]
      refine (runWrite_logged hpolicy hw).conseq (fun _ h => h) fun reply s _ hs => ?_
      refine ⟨hs.knows.outside, fun c' hc' _ _ _ => ?_⟩
      cases hc'
      exact hs.knows
    · refine ((framing_contract hapart).single fun _ => trivial).conseq houtside
        fun reply s _ hs => ⟨hs.knows, fun c' hc' hanswered hw hpolicy => ?_⟩
      cases hc'
      exact absurd ⟨hanswered, hw, hpolicy⟩ hwrite
  | exec queued =>
    exact ((framing_contract hapart).handleExec fun _ _ _ => trivial).conseq houtside
      fun reply s _ hs => ⟨hs.knows, nofun⟩
  | psync env =>
    have hA : Keepable (F := F) (InBatch i False) i := keepable_inBatch False
    refine Discipline.Triple.conseq (P := Under (InBatch i False) i ∅)
      (Q := fun _ => Under (InBatch i False) i ∅) ?_ houtside
      fun reply s _ hs => ⟨hs.knows, nofun⟩
    refine .bind (framing_locking hA).lockAllShards fun _ => ?_
    rintro s ⟨-, hs⟩
    refine Discipline.Triple.bind (mute_triple hA (p := perform (.fanout .masterReplOffset))
      (.perform trivial)) (fun offset => ?_) s hs
    refine .bind (mute_triple hA (takeSnapshot_calls (fun _ => trivial) (fun _ => trivial) _))
      fun blob => ?_
    refine .bind (mute_triple hA (.perform trivial)) fun _ => ?_
    exact .bind ((framing_locking hA).unlock _) fun _ => .ret (Under.stable hA ∅) fun _ _ h => h
  | fsync =>
    refine Discipline.Triple.conseq (P := Under (InBatch i False) i ∅)
      (Q := fun _ => Under (InBatch i False) i ∅) ?_ houtside
      fun reply s _ hs => ⟨hs.knows, nofun⟩
    exact .bind (mute_triple (keepable_inBatch False) (.perform trivial)) fun _ =>
      .ret (Under.stable (keepable_inBatch False) ∅) fun _ _ h => h

end RocketMem
