import RocketMem.Server.LoggedFrames
import RocketMem.Server.SoloRun

namespace RocketMem

open List Finset

variable {F : Type} [F64 F]

/-- What a discipline has to say about the parts that requests are made of, so that it says as much
about every request. `P L` is what thread `i` knows between two commands while it holds the guards
in `L`; a command that runs keeps it. -/
structure Upholds (d : Discipline (ServerOp F) (Node F)) (cfg : Settings)
    (permits : Nat → Option Fault → ServerOp F → Node F → Prop) (i : Nat) (ok : Command → Prop)
    (P : Finset (Fin shardCount) → Node F → Prop) : Prop where
  stable : ∀ L, d.Stable i (P L)
  write : ∀ c L, ok c → L.Nonempty → (∀ k ∈ commandKeys c.frame, shardIndex k ∈ L) →
    (extractWriteCommandName c.frame).isSome →
    d.Triple (server F cfg) permits i (P L) (mutateAndLog cfg c.env c.frame) fun _ => P L
  read : ∀ c L, ok c → extractWriteCommandName c.frame = none →
    d.Triple (server F cfg) permits i (P L) (liftEngine c.env (dispatch c.env c.frame)) fun _ => P L
  publish : ∀ c L, ok c → isNamed "PUBLISH" c.frame = true →
    d.Triple (server F cfg) permits i (P L) (runPublish c.frame) fun _ => P L
  save : ∀ c L, ok c → isNamed "SAVE" c.frame = true →
    d.Triple (server F cfg) permits i (P L) (handleSave cfg c.env) fun _ => P L
  rewrite : ∀ c L, ok c → isNamed "BGREWRITEAOF" c.frame = true →
    d.Triple (server F cfg) permits i (P L) (handleBgrewriteaof cfg c.env) fun _ => P L

structure Locking (d : Discipline (ServerOp F) (Node F)) (cfg : Settings)
    (permits : Nat → Option Fault → ServerOp F → Node F → Prop) (i : Nat)
    (P : Finset (Fin shardCount) → Node F → Prop) : Prop where
  stable : ∀ L, d.Stable i (P L)
  lock : ∀ j L, d.Triple (server F cfg) permits i (P L) (perform (.lockShard j))
    fun _ s => j ∉ L ∧ P (insert j L) s
  unlock : ∀ L, d.Triple (server F cfg) permits i (P L) unlockShards fun _ => P ∅

structure Persisting (d : Discipline (ServerOp F) (Node F)) (cfg : Settings)
    (permits : Nat → Option Fault → ServerOp F → Node F → Prop) (i : Nat) (ok : Env → Prop)
    (P : Finset (Fin shardCount) → Node F → Prop) : Prop where
  locking : Locking d cfg permits i P
  file : ∀ o L, ServerOp.OnFiles o →
    d.Triple (server F cfg) permits i (P L) (perform o) fun _ => P L
  snapshot : ∀ env offset, ok env → d.Triple (server F cfg) permits i (P Finset.univ)
    (takeSnapshot env offset) fun _ => P Finset.univ

structure Contract (d : Discipline (ServerOp F) (Node F)) (cfg : Settings)
    (permits : Nat → Option Fault → ServerOp F → Node F → Prop) (i : Nat) (ok : Command → Prop)
    (P Q : Finset (Fin shardCount) → Node F → Prop) : Prop where
  lockKeys : ∀ keys, d.Triple (server F cfg) permits i (P ∅) (lockKeys keys)
    fun _ => P (keyGuards keys)
  unlock : ∀ L, d.Triple (server F cfg) permits i (P L) unlockShards fun _ => P ∅
  outside : Upholds d cfg permits i ok P
  inside : Upholds d cfg permits i ok Q
  multi : ∀ L, L.Nonempty → d.Triple (server F cfg) permits i (P L)
    (appendTransactionMarker cfg .multi) fun _ => Q L
  exec : ∀ L, L.Nonempty → d.Triple (server F cfg) permits i (Q L)
    (appendTransactionMarker cfg .exec) fun _ => P L

variable {d : Discipline (ServerOp F) (Node F)} {cfg : Settings}
  {permits : Nat → Option Fault → ServerOp F → Node F → Prop} {i : Nat} {ok : Command → Prop}
  {P Q : Finset (Fin shardCount) → Node F → Prop} {L : Finset (Fin shardCount)}

namespace Locking

variable (h : Locking d cfg permits i P)

include h

theorem lockEach (shards : List (Fin shardCount)) :
    d.Triple (server F cfg) permits i (P L) (shards.forM fun j => perform (.lockShard j))
      fun _ s => (∀ j ∈ shards, j ∉ L) ∧ P (L ∪ shards.toFinset) s := by
  induction shards generalizing L with
  | nil => exact .ret (h.stable L) fun s _ hs => ⟨nofun, by simpa using hs⟩
  | cons j shards ih =>
    refine .bind (h.lock j L) fun _ => ?_
    intro s hs
    refine (ih s hs.2).mono fun _ s' _ hs' => ⟨fun j' hj' => ?_, ?_⟩
    · rcases mem_cons.mp hj' with rfl | hj'
      · exact hs.1
      · exact fun hL => hs'.1 j' hj' (mem_insert_of_mem hL)
    · have hL : insert j L ∪ shards.toFinset = L ∪ (j :: shards).toFinset := by
        ext j'
        simp
      rw [← hL]
      exact hs'.2

theorem lockShards (shards : List (Fin shardCount)) :
    d.Triple (server F cfg) permits i (P ∅) (lockShards shards) fun _ => P shards.toFinset := by
  refine (h.lockEach _).conseq (fun _ hs => hs) fun _ s _ hs => ?_
  have hL : ∅ ∪ (shards.toFinset.sort (· ≤ ·)).toFinset = shards.toFinset := by
    rw [empty_union, sort_toFinset]
  rw [← hL]
  exact hs.2

theorem lockAllShards :
    d.Triple (server F cfg) permits i (P L) lockAllShards fun _ s => L = ∅ ∧ P Finset.univ s := by
  refine (h.lockEach _).conseq (fun _ hs => hs) fun _ s _ hs => ⟨?_, ?_⟩
  · refine eq_empty_of_forall_notMem fun j hj => hs.1 j ?_ hj
    simp
  · have hL : L ∪ ((List.finRange shardCount).toFinset.sort (· ≤ ·)).toFinset = Finset.univ := by
      rw [sort_toFinset, finRange_toFinset]
      exact Finset.union_eq_right.mpr (subset_univ L)
    rw [← hL]
    exact hs.2

theorem lockKeys (keys : List Bytes) :
    d.Triple (server F cfg) permits i (P ∅) (lockKeys keys) fun _ => P (keyGuards keys) := by
  unfold RocketMem.lockKeys keyGuards
  split
  · exact h.lockAllShards.conseq (fun _ hs => hs) fun _ _ _ hs => hs.2
  · exact h.lockShards _

theorem underAllShards {α β : Type} {p : ServerProgram F α} {f : α → ServerProgram F β}
    (hp : d.Triple (server F cfg) permits i (P Finset.univ) p fun _ => P Finset.univ)
    (hf : ∀ a, d.Triple (server F cfg) permits i (P ∅) (f a) fun _ => P ∅) :
    d.Triple (server F cfg) permits i (P L)
      (do RocketMem.lockAllShards; let a ← p; unlockShards; f a) fun _ => P L := by
  refine .bind h.lockAllShards fun _ => ?_
  rintro s ⟨rfl, hs⟩
  refine Discipline.Triple.bind hp (fun a => ?_) s hs
  exact .bind (h.unlock _) fun _ => hf a

end Locking

theorem attempt_triple {α β : Type} {R : Node F → Prop} (hR : d.Stable i R)
    {p : ServerProgram F (IoResult α)} {f : α → ServerProgram F (IoResult β)}
    (hp : d.Triple (server F cfg) permits i R p fun _ => R)
    (hf : ∀ a, d.Triple (server F cfg) permits i R (f a) fun _ => R) :
    d.Triple (server F cfg) permits i R (attempt p f) fun _ => R := by
  refine .bind hp fun r => ?_
  cases r with
  | error e => exact .ret hR fun _ _ hs => hs
  | ok a => exact hf a

namespace Persisting

variable {okEnv : Env → Prop} (h : Persisting d cfg permits i okEnv P) {env : Env}

include h

theorem ret {α : Type} (a : α) :
    d.Triple (server F cfg) permits i (P L) (.ret a : ServerProgram F α) fun _ => P L :=
  .ret (h.locking.stable L) fun _ _ hs => hs

theorem writeAtomically (path : Path) (bytes : Bytes) :
    d.Triple (server F cfg) permits i (P L) (writeAtomically path bytes) fun _ => P L := by
  have hP := h.locking.stable L
  refine attempt_triple hP (h.file (.create (tmpPath path)) L trivial) fun _ => ?_
  refine attempt_triple hP (h.file (.write (tmpPath path) bytes) L trivial) fun _ => ?_
  refine attempt_triple hP (h.file (.sync (tmpPath path)) L trivial) fun _ => ?_
  exact attempt_triple hP (h.file (.rename (tmpPath path) path) L trivial) fun _ =>
    h.file (.syncDir path) L trivial

theorem readGeneration :
    d.Triple (server F cfg) permits i (P L) (readGeneration cfg) fun _ => P L := by
  refine .bind (h.file (.readFile cfg.manifest) L trivial) fun contents => ?_
  cases contents <;> exact h.ret _

theorem currentOffset : d.Triple (server F cfg) permits i (P L) currentOffset fun _ => P L :=
  attempt_triple (h.locking.stable L) (h.file .flush L trivial) fun _ => h.file .aofLen L trivial

variable (henv : okEnv env)

include henv

theorem saveImage : d.Triple (server F cfg) permits i (P L) (saveImage env) fun _ => P L := by
  refine h.locking.underAllShards ?_ fun image => h.ret image
  refine attempt_triple (h.locking.stable _) h.currentOffset fun offset => ?_
  exact .bind (h.snapshot env offset henv) fun _ => h.ret _

theorem startRewrite :
    d.Triple (server F cfg) permits i (P L) (startRewrite cfg env) fun _ => P L := by
  refine h.locking.underAllShards ?_ fun started => h.ret started
  refine attempt_triple (h.locking.stable _) h.readGeneration fun gen => ?_
  refine .bind (h.snapshot env 0 henv) fun bytes => ?_
  exact attempt_triple (h.locking.stable _) (h.file (.rotate _) _ trivial) fun _ => h.ret _

theorem rewriteAof : d.Triple (server F cfg) permits i (P L) (rewriteAof cfg env) fun _ => P L := by
  refine .bind (h.startRewrite henv) fun started => ?_
  rcases started with e | ⟨next, bytes⟩
  · exact h.ret _
  refine .bind (h.writeAtomically _ bytes) fun written => ?_
  cases written with
  | error e => exact h.ret _
  | ok u =>
    refine .bind (h.writeAtomically _ _) fun committed => ?_
    cases committed with
    | error e => exact h.ret _
    | ok u =>
      refine .bind (h.file (.remove _) L trivial) fun _ => ?_
      exact .bind (h.file (.remove _) L trivial) fun _ => h.ret _

theorem saveSnapshot :
    d.Triple (server F cfg) permits i (P L) (saveSnapshot cfg env) fun _ => P L := by
  refine .bind h.readGeneration fun gen => ?_
  cases gen with
  | error e => exact h.ret _
  | ok gen =>
    refine .bind (h.saveImage henv) fun image => ?_
    cases image with
    | error e => exact h.ret _
    | ok bytes =>
      refine .bind (h.writeAtomically _ bytes) fun written => ?_
      cases written <;> exact h.ret _

theorem handleBgrewriteaof :
    d.Triple (server F cfg) permits i (P L) (handleBgrewriteaof cfg env) fun _ => P L :=
  .bind (h.file .lockRewrite L trivial) fun _ => .bind (h.rewriteAof henv) fun _ =>
    .bind (h.file .unlockRewrite L trivial) fun _ => h.ret _

theorem handleSave : d.Triple (server F cfg) permits i (P L) (handleSave cfg env) fun _ => P L :=
  .bind (h.file .lockRewrite L trivial) fun _ => .bind (h.saveSnapshot henv) fun _ =>
    .bind (h.file .unlockRewrite L trivial) fun _ => h.ret _

end Persisting

section

variable {R : Node F → Prop} (hR : d.Stable i R)

include hR

theorem appendEncoded_keeps {frame : Frame}
    (happend : d.Triple (server F cfg) permits i R (perform (.append frame)) fun _ => R)
    (hflush : d.Triple (server F cfg) permits i R (perform .flush) fun _ => R) :
    d.Triple (server F cfg) permits i R (appendEncoded cfg frame) fun _ => R := by
  refine .bind happend fun written => ?_
  split
  · cases written with
    | error e => exact .ret hR fun _ _ hs => hs
    | ok u => exact hflush
  · exact .ret hR fun _ _ hs => hs

theorem appendAll_keeps {frames : List Frame}
    (happend : ∀ f ∈ frames, d.Triple (server F cfg) permits i R (appendEncoded cfg f) fun _ => R) :
    d.Triple (server F cfg) permits i R (appendAll cfg frames) fun _ => R := by
  induction frames with
  | nil => exact .ret hR fun _ _ hs => hs
  | cons f frames ih =>
    refine .bind (happend f mem_cons_self) fun _ => ?_
    refine .bind (ih fun f' hf' => happend f' (mem_cons_of_mem f hf')) fun _ => ?_
    exact .ret hR fun _ _ hs => hs

theorem replicateAll_keeps {frames : List Frame}
    (hreplicate : ∀ f ∈ frames, d.Triple (server F cfg) permits i R (replicate f) fun _ => R) :
    d.Triple (server F cfg) permits i R (replicateAll frames) fun _ => R := by
  induction frames with
  | nil => exact .ret hR fun _ _ hs => hs
  | cons f frames ih =>
    refine .bind (hreplicate f mem_cons_self) fun _ => ?_
    exact ih fun f' hf' => hreplicate f' (mem_cons_of_mem f hf')

omit hR in
theorem mutateAndLog_logs {c : Command} (hw : (extractWriteCommandName c.frame).isSome)
    {Q : Frame × Bool → Node F → Prop}
    (hengine : d.Triple (server F cfg) permits i R (liftEngine c.env (dispatch c.env c.frame))
      fun _ => R)
    (hlog : ∀ reply, (∀ f ∈ toLog c.env.clock c.frame reply,
        ∃ words, f = .command words ∧ (extractWriteCommandName (.command words)).isSome) →
      d.Triple (server F cfg) permits i R (do
        let failed ← appendAll cfg (toLog c.env.clock c.frame reply)
        replicateAll (toLog c.env.clock c.frame reply)
        return (reply, failed)) Q) :
    d.Triple (server F cfg) permits i R (mutateAndLog cfg c.env c.frame) Q := by
  obtain ⟨name, hname⟩ := Option.isSome_iff_exists.mp hw
  rcases logged_commands (F := F) hname c.env.clock with hcommands | hreject
  · refine .bind hengine fun reply => hlog reply fun f hf => ?_
    obtain ⟨words, rfl⟩ := hcommands reply f hf
    exact ⟨words, rfl, toLog_isWrite _ _ _ _ hf⟩
  · have hnil : toLog c.env.clock c.frame invalidRequest = [] := by
      simp [toLog, invalidRequest, Frame.isError]
    rw [mutateAndLog, hreject c.env]
    refine hlog invalidRequest fun f hf => ?_
    rw [hnil] at hf
    cases hf

theorem mutateAndLog_keeps {c : Command} (hw : (extractWriteCommandName c.frame).isSome)
    (hengine : d.Triple (server F cfg) permits i R (liftEngine c.env (dispatch c.env c.frame))
      fun _ => R)
    (happend : ∀ words, (extractWriteCommandName (.command words)).isSome →
      d.Triple (server F cfg) permits i R (appendEncoded cfg (.command words)) fun _ => R)
    (hreplicate : ∀ words, d.Triple (server F cfg) permits i R (replicate (.command words))
      fun _ => R) :
    d.Triple (server F cfg) permits i R (mutateAndLog cfg c.env c.frame) fun _ => R := by
  refine mutateAndLog_logs hw hengine fun reply hlogged => ?_
  refine .bind (appendAll_keeps hR fun f hf => ?_) fun failed =>
    .bind (replicateAll_keeps hR fun f hf => ?_) fun _ => .ret hR fun _ _ hs => hs
  · obtain ⟨words, rfl, hwords⟩ := hlogged f hf
    exact happend words hwords
  · obtain ⟨words, rfl, -⟩ := hlogged f hf
    exact hreplicate words

end

theorem named_silent {name : String} {frame : Frame} (h : isNamed name frame = true)
    (hname : (CommandName.ofText (txt name)).filter CommandName.isWrite = none) :
    extractWriteCommandName frame = none := by
  unfold isNamed at h
  split at h
  · next raw items =>
    have hupper : asciiUpper raw = txt name := of_decide_eq_true h
    change (commandName raw).filter CommandName.isWrite = none
    unfold commandName upperName
    split
    · rfl
    · rw [Option.bind_some, hupper, hname]
  · cases h

theorem gated_write {c : Command} (hanswered : c.answered = none)
    (hw : (extractWriteCommandName c.frame).isSome) (takeOwnGuard : Bool) :
    dispatchAndLogGated (F := F) cfg takeOwnGuard c = runWrite cfg takeOwnGuard c.env c.frame := by
  have hname (name : String)
      (h : (CommandName.ofText (txt name)).filter CommandName.isWrite = none) :
      isNamed name c.frame = false := by
    refine Bool.eq_false_iff.mpr fun hnamed => ?_
    rw [named_silent hnamed h] at hw
    cases hw
  have hsave := hname "SAVE" (by decide)
  have hrewrite := hname "BGREWRITEAOF" (by decide)
  have hpublish := hname "PUBLISH" (by decide)
  simp only [dispatchAndLogGated, hanswered, hsave, hrewrite, hpublish, hw, Bool.false_eq_true,
    if_false, if_true]

theorem mem_keyGuards {keys : List Bytes} {k : Bytes} (hk : k ∈ keys) :
    shardIndex k ∈ keyGuards keys := by
  unfold keyGuards
  split
  · exact mem_univ _
  · exact mem_toFinset.mpr (mem_map_of_mem hk)

theorem keyGuards_nonempty (keys : List Bytes) : (keyGuards keys).Nonempty := by
  cases keys with
  | nil => exact ⟨⟨0, by decide⟩, mem_univ _⟩
  | cons k keys => exact ⟨shardIndex k, mem_keyGuards mem_cons_self⟩

namespace Upholds

variable (h : Upholds d cfg permits i ok P)

include h

theorem ret {α : Type} (a : α) :
    d.Triple (server F cfg) permits i (P L) (pure a : ServerProgram F α) fun _ => P L :=
  .ret (h.stable L) fun _ _ hs => hs

theorem gated {c : Command} (hc : c.answered = none → ok c) {takeOwnGuard : Bool}
    (hwrite : ok c → (extractWriteCommandName c.frame).isSome →
      d.Triple (server F cfg) permits i (P L) (runWrite cfg takeOwnGuard c.env c.frame)
        fun _ => P L) :
    d.Triple (server F cfg) permits i (P L) (dispatchAndLogGated cfg takeOwnGuard c)
      fun _ => P L := by
  unfold dispatchAndLogGated
  split
  · exact h.ret _
  · next hanswered =>
    have hok := hc hanswered
    split
    · next hname => exact h.save c L hok hname
    · split
      · next hname => exact h.rewrite c L hok hname
      · split
        · next hname => exact h.publish c L hok hname
        · split
          · next hw => exact hwrite hok hw
          · next hread => exact h.read c L hok (Option.not_isSome_iff_eq_none.mp hread)

theorem runQueued (hL : L.Nonempty) {queued : List Command}
    (hok : ∀ c ∈ queued, c.answered = none → ok c)
    (hkeys : ∀ c ∈ queued, ∀ k ∈ commandKeys c.frame, shardIndex k ∈ L) :
    d.Triple (server F cfg) permits i (P L) (runQueued cfg queued) fun _ => P L := by
  induction queued with
  | nil => exact h.ret _
  | cons c queued ih =>
    have hwrite (hc : ok c) (hw : (extractWriteCommandName c.frame).isSome) :
        d.Triple (server F cfg) permits i (P L) (runWrite cfg false c.env c.frame) fun _ => P L :=
      Discipline.Triple.bind (h.write c L hc hL (hkeys c mem_cons_self) hw) fun r =>
        h.ret (replyOrFailure cfg r)
    refine .bind (h.gated (hok c mem_cons_self) hwrite) fun reply => ?_
    refine .bind (ih (fun c' hc' => hok c' (mem_cons_of_mem c hc')) fun c' hc' =>
      hkeys c' (mem_cons_of_mem c hc')) fun replies => ?_
    exact h.ret _

end Upholds

namespace Contract

variable (h : Contract d cfg permits i ok P Q)

include h

theorem runBatch (hL : L.Nonempty) {queued : List Command}
    (hok : ∀ c ∈ queued, c.answered = none → ok c)
    (hkeys : ∀ c ∈ queued, ∀ k ∈ commandKeys c.frame, shardIndex k ∈ L) :
    d.Triple (server F cfg) permits i (P L) (runBatch cfg queued) fun _ => P L := by
  unfold RocketMem.runBatch
  split
  · refine .bind (h.multi L hL) fun _ => ?_
    refine .bind (h.inside.runQueued hL hok hkeys) fun replies => ?_
    exact .bind (h.exec L hL) fun _ => h.outside.ret _
  · exact h.outside.runQueued hL hok hkeys

theorem handleExec {queued : List Command} (hok : ∀ c ∈ queued, c.answered = none → ok c) :
    d.Triple (server F cfg) permits i (P ∅) (handleExec cfg queued) fun _ => P ∅ := by
  refine .bind (h.lockKeys _) fun _ => ?_
  refine .bind (h.runBatch (keyGuards_nonempty _) hok fun c hc k hk => ?_) fun replies => ?_
  · exact mem_keyGuards (mem_flatMap.mpr ⟨c, hc, hk⟩)
  · exact .bind (h.unlock _) fun _ => h.outside.ret _

theorem single {c : Command} (hc : c.answered = none → ok c) :
    d.Triple (server F cfg) permits i (P ∅) (dispatchAndLogGated cfg true c) fun _ => P ∅ := by
  refine h.outside.gated hc fun hok hw => ?_
  refine .bind (h.lockKeys (commandKeys c.frame)) fun _ => ?_
  refine .bind (h.outside.write c _ hok (keyGuards_nonempty _) (fun k hk => mem_keyGuards hk) hw)
    fun r => ?_
  exact .bind (h.unlock _) fun _ => h.outside.ret _

end Contract

end RocketMem
