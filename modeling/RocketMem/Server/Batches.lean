import RocketMem.Server.Framing
import RocketMem.Server.Recovery
import RocketMem.Server.ReplayTime

namespace RocketMem

open List Option Function

section

variable {F : Type} [F64 F] {cfg : Settings}
  {permits : Nat → Option Fault → ServerOp F → Node F → Prop} {node : Node F}
  {requests : Nat → Option Request} {final : ServerConfig F}

/-- A server about to serve whose AOF holds the frames `old`, each in full, and no open
transaction. -/
structure Node.Opened (old : List Frame) (s : Node F) : Prop where
  log : s.log = []
  synced : s.synced = 0
  file : ∃ f, s.disk s.aofPath = some f ∧ f.durable = logBytes old ∧ f.pending = []
  wire : ∀ f ∈ old, Resp2Frame f
  closed : TransactionGrouper.new.feedAll old = .ok (commands old, .new)

theorem serving_framing (cfg : Settings) (requests : Nat → Option Request) (hlog : node.log = [])
    (hsynced : node.synced = 0) (hapart : BatchesApart permits) :
    framing.Sustains (server F cfg) permits
      (fun i reply s => ∀ r, requests i = some r → Returned cfg r i reply s)
      (serving cfg node requests) := by
  have hinv : FramingInv node := by
    refine ⟨?_, by rw [hsynced]; exact Nat.zero_le _⟩
    rw [hlog]
    rfl
  refine ⟨hinv, fun i p hp => ?_, fun _ _ => trivial⟩
  obtain ⟨r, hr, rfl⟩ := map_eq_some_iff.mp hp
  have hstart : Under (Logged i True []) i ∅ node := by
    refine ⟨fun j hj => absurd hj (Finset.notMem_empty j), ?_, fun _ => ?_, fun _ => ?_⟩
    · rw [InBatch, hlog]
      refine ⟨fun h => ?_, False.elim⟩
      cases h
    · rw [Node.ownFrames, hlog]
      rfl
    · intro e he
      rw [hlog, drop_nil] at he
      cases he
  refine (request_framing hapart r node hstart).mono fun reply s _ h r' hr' => ?_
  obtain rfl := some.inj (hr.symm.trans hr')
  exact h

/-- The AOF is what it held at the start and, in full, every frame logged since; what has been
fsynced of it is durable. -/
structure WholeLog (old : List Frame) (s : Node F) : Prop where
  file : ∃ f, s.disk s.aofPath = some f ∧ f.content = logBytes (old ++ s.frames) ∧
    f.durable = logBytes (old ++ s.frames.take s.synced)
  wire : ∀ f ∈ s.frames, Resp2Frame f
  synced : s.synced ≤ s.frames.length

theorem Node.Opened.whole {old : List Frame} (h : node.Opened old) : WholeLog old node := by
  obtain ⟨f, hf, hdurable, hpending⟩ := h.file
  have hframes : node.frames = [] := congrArg (List.map Prod.snd) h.log
  refine ⟨⟨f, hf, ?_, ?_⟩, ?_, ?_⟩
  · rw [hframes, append_nil, File.content, hdurable, hpending, append_nil]
  · rw [hframes, take_nil, append_nil, hdurable]
  · rw [hframes]
    exact nofun
  · rw [h.synced]
    exact Nat.zero_le _

theorem WholeLog.exec {old : List Frame} {i : Nat} {x : Option Fault} {o : ServerOp F}
    {s s' : Node F} {r : o.Ret} (ho : o.OfWriters) (happend : AppendsSucceed i x o s)
    (hassert : FramingAssert i o s) (hx : (server F cfg).exec i x o s = some (r, s'))
    (h : WholeLog old s) : WholeLog old s' := by
  obtain ⟨f, hf, hcontent, hdurable⟩ := h.file
  rcases exec_writers ho hx with ⟨frame, rfl, rfl⟩ | ⟨rfl, rfl, rfl⟩ | hsame
  · obtain ⟨words, rfl⟩ := hassert
    obtain ⟨f', hf', hs'⟩ := Node.append_eq_ok hf happend
    obtain ⟨hdurable', hcontent'⟩ := File.append_eq_some hf'
    have hframes : (s.append i x (.command words)).2.frames = s.frames ++ [.command words] := by
      rw [hs']
      simp [Node.frames]
    have hsynced : (s.append i x (.command words)).2.synced = s.synced := by rw [hs']
    rw [← hsynced] at hdurable
    refine ⟨⟨f', by rw [hs']; exact update_self .., ?_, ?_⟩, fun g hg => ?_, ?_⟩
    · rw [hcontent', hcontent, hframes, ← append_assoc, logBytes_concat]
    · rw [hdurable', hdurable, hframes, take_append_of_le_length]
      exact hsynced.le.trans h.synced
    · rw [hframes] at hg
      rcases mem_append.mp hg with hg | hg
      · exact h.wire g hg
      · rw [mem_singleton.mp hg]
        refine (WireFrame.command words).resp2 ?_
        have hfits := f'.content_length_le
        rw [hcontent', length_append] at hfits
        omega
    · rw [hframes, hsynced, length_append]
      exact Nat.le_add_right_of_le h.synced
  · refine ⟨⟨f.sync, ?_, ?_, ?_⟩, h.wire, ?_⟩
    · simp only [Node.flushed, Node.setFile, hf, update_self, map_some]
    · rw [File.content_sync]
      exact hcontent
    · have hall : s.flushed.frames.take s.flushed.synced = s.frames := by
        refine take_of_length_le ?_
        simp [Node.flushed, Node.setFile, Node.frames]
      rw [hall]
      exact hcontent
    · simp [Node.flushed, Node.setFile, Node.frames]
  · have hframes : s'.frames = s.frames := congrArg (List.map Prod.snd) hsame.log
    refine ⟨⟨f, ?_, ?_, ?_⟩, ?_, ?_⟩
    · rw [hsame.disk, hsame.aofPath, hf]
    · rw [hframes, hcontent]
    · rw [hframes, hsame.synced, hdurable]
    · rw [hframes]
      exact h.wire
    · rw [hframes, hsame.synced]
      exact h.synced

theorem whole_of_reaches {old : List Frame} (hopened : node.Opened old)
    (hapart : BatchesApart permits)
    (hwriters : ∀ i x o s, permits i x o s → o.OfWriters ∧ AppendsSucceed i x o s)
    (hrun : (server F cfg).Reaches permits (serving cfg node requests) final) :
    WholeLog old final.shared := by
  have hsustains := serving_framing cfg requests hopened.log hopened.synced hapart
  refine (Discipline.reaches_asserts hsustains hrun).invariant (I := WholeLog old) hopened.whole ?_
    fun _ _ h => ⟨h.file, h.wire, h.synced⟩
  intro i x o r s s' _ hp hx h
  obtain ⟨ho, happend⟩ := hwriters i x o s hp.1
  exact h.exec ho happend hp.2 hx

end

section

variable {F : Type} [F64 F] (cfg : Settings) (may : Nat → Frame → List (Nat × Frame) → Prop)
  (i : Nat) {guards : Fin shardCount → Option Nat} {log : List (Nat × Frame)} {s : Node F} (key : Bytes)

def Undisturbed (may : Nat → Frame → List (Nat × Frame) → Prop) (i : Nat) (x : Option Fault)
    (o : ServerOp F) (s : Node F) : Prop :=
  x = none ∧ o.OfWriters ∧ AppendsSucceed i x o s ∧ ∀ frame, o = .append frame → may i frame s.log

structure Node.Stage (guards : Fin shardCount → Option Nat) (log : List (Nat × Frame))
    (s : Node F) : Prop where
  holders : s.guards = guards
  entries : s.log = log
  file : ∃ f, s.disk s.aofPath = some f ∧ f.durable = logBytes (log.map Prod.snd) ∧ f.pending = []

theorem Node.stage_new : (Node.new cfg : Node F).Stage (fun _ => none) [] := by
  refine ⟨rfl, rfl, .empty, ?_, rfl, rfl⟩
  exact update_self (cfg.aofFile 0) (some File.empty) fun _ => none

def ServerOp.Wordless (o : ServerOp F) : Prop := o.OfWriters ∧ ¬ o.IsAppend

theorem ServerOp.Plumbing.wordless {o : ServerOp F} (h : o.Plumbing) : o.Wordless := by
  cases o with
  | append | rotate | create | write | sync | rename | remove => exact h.elim
  | _ => exact ⟨trivial, fun h => h⟩

theorem undisturbed_of_alone {α : Type} {p : ServerProgram F α} {a : α} {s' : Node F}
    (h : Alone cfg i p s a s') (hp : p.Calls ServerOp.Wordless) :
    (server F cfg).Runs (Undisturbed may) i p s (.ret a) s' := by
  refine Machine.Runs.permitted (I := fun _ => True) (fun _ _ _ _ _ _ _ _ => trivial) ?_ hp h trivial
  intro o ho x s hx _
  refine ⟨hx.1, ho.1, hx.2, fun frame hframe => ?_⟩
  rw [hframe] at ho
  exact absurd trivial ho.2

theorem lockKeys_stage (h : s.Stage guards log) (keys : List Bytes)
    (hfree : ∀ j ∈ keyGuards keys, guards j = none) :
    ∃ s', (server F cfg).Runs (Undisturbed may) i (lockKeys keys) s (.ret ()) s' ∧
      s'.Stage (fun j => if j ∈ keyGuards keys then some i else guards j) log := by
  have halone : Alone cfg i (lockKeys keys) s () _ :=
    lockKeys_alone keys fun j hj => h.holders ▸ hfree j hj
  refine ⟨_, undisturbed_of_alone cfg may i halone (lockKeys_calls (fun _ ho => ho.wordless) keys), ?_, h.entries, h.file⟩
  rw [← h.holders]
  rfl

theorem unlockShards_stage (h : s.Stage guards log) :
    ∃ s', (server F cfg).Runs (Undisturbed may) i unlockShards s (.ret ()) s' ∧
      s'.Stage (fun j => if guards j = some i then none else guards j) log := by
  refine ⟨s.releaseShards i, .perform none ⟨rfl, trivial, trivial, nofun⟩ rfl, ?_, h.entries, h.file⟩
  rw [← h.holders]
  rfl

theorem replicate_stage (h : s.Stage guards log) (frame : Frame) :
    ∃ s', (server F cfg).Runs (Undisturbed may) i (replicate frame) s (.ret ()) s' ∧
      s'.Stage guards log :=
  ⟨_, undisturbed_of_alone cfg may i (replicate_alone frame s) (replicate_calls (fun _ ho _ => ho.wordless) frame), h.holders, h.entries,
    h.file⟩

theorem appendEncoded_stage (hpolicy : cfg.policy = .always) (h : s.Stage guards log) {frame : Frame}
    (hmay : may i frame log)
    (hsize : ((logBytes ((log ++ [(i, frame)]).map Prod.snd)).length : Int) ≤ i64Max) :
    ∃ s', (server F cfg).Runs (Undisturbed may) i (appendEncoded cfg frame) s (.ret (.ok ())) s' ∧
      s'.Stage guards (log ++ [(i, frame)]) := by
  obtain ⟨f, hf, hdurable, hpending⟩ := h.file
  have hcontent : f.content = logBytes (log.map Prod.snd) := by
    rw [File.content, hdurable, hpending, append_nil]
  have hlogged : logBytes ((log ++ [(i, frame)]).map Prod.snd) = f.content ++ encode .resp2 frame := by
    rw [map_append, hcontent, ← logBytes_concat]
    rfl
  have hroom : s.Room (encode .resp2 frame).length := by
    intro f' hf'
    obtain rfl := some.inj (hf.symm.trans hf')
    rw [hlogged, length_append] at hsize
    exact hsize
  have hok := append_ok (i := i) hroom
  obtain ⟨f', hf', hs'⟩ := Node.append_eq_ok hf hok
  have hx : (server F cfg).exec i none (.append frame) s =
      some (.ok (), (s.append i none frame).2) := congrArg some (Prod.ext hok rfl)
  refine ⟨(s.append i none frame).2.flushed, .bind (.perform none ⟨rfl, trivial, hok, ?_⟩ hx) ?_, ?_⟩
  · intro frame' hframe'
    cases hframe'
    rwa [h.entries]
  · rw [if_pos hpolicy]
    exact .perform none ⟨rfl, trivial, trivial, nofun⟩ rfl
  · rw [hs']
    refine ⟨h.holders, ?_, f'.sync, ?_, ?_, rfl⟩
    · exact congrArg (· ++ [(i, frame)]) h.entries
    · simp [Node.flushed, Node.setFile]
    · rw [hlogged]
      exact (File.append_eq_some hf').2

theorem appendMarker_stage (hpolicy : cfg.policy = .always) (h : s.Stage guards log) {mk : Marker}
    (hmay : may i (markerFrame mk) log)
    (hsize : ((logBytes ((log ++ [(i, markerFrame mk)]).map Prod.snd)).length : Int) ≤ i64Max) :
    ∃ s', (server F cfg).Runs (Undisturbed may) i (appendTransactionMarker cfg mk) s (.ret ()) s' ∧
      s'.Stage guards (log ++ [(i, markerFrame mk)]) := by
  obtain ⟨s₁, happend, h₁⟩ := appendEncoded_stage cfg may i hpolicy h hmay hsize
  obtain ⟨s₂, hreplicate, h₂⟩ := replicate_stage cfg may i h₁ (markerFrame mk)
  exact ⟨s₂, .bind happend hreplicate, h₂⟩

def setOf (key : Bytes) : Frame := setFrame key (txt "v") []

theorem toLog_setOf : toLog Env.still.clock (setOf key) okReply = [setOf key] :=
  have hplain : Dispatch.setTtl [] = .ok none := rfl
  toLog_setFrame _ key (txt "v") hplain

theorem mutateAndLog_stage (hpolicy : cfg.policy = .always) (h : s.Stage guards log)
    (hmay : may i (setOf key) log)
    (hsize : ((logBytes ((log ++ [(i, setOf key)]).map Prod.snd)).length : Int) ≤ i64Max) :
    ∃ s', (server F cfg).Runs (Undisturbed may) i (mutateAndLog cfg Env.still (setOf key)) s
        (.ret (okReply, false)) s' ∧ s'.Stage guards (log ++ [(i, setOf key)]) := by
  have hreply : (runEngine Env.still (dispatch Env.still (setOf key)) s.store).1 =
      some okReply := runEngine_setFrame rfl key (txt "v") (rfl : Dispatch.setTtl [] = .ok none) rfl
  obtain ⟨st, hengine⟩ : ∃ st, Alone cfg i
      (liftEngine Env.still (dispatch Env.still (setOf key))) s okReply
      { s with store := st } := ⟨_, liftEngine_alone (Prod.ext hreply rfl)⟩
  have hstart := undisturbed_of_alone cfg may i hengine
    (liftEngine_calls_any (fun _ => ⟨trivial, fun h => h⟩) _)
  obtain ⟨s₁, happend, h₁⟩ := appendEncoded_stage cfg may i hpolicy
    (⟨h.holders, h.entries, h.file⟩ : Node.Stage guards log { s with store := st }) hmay hsize
  obtain ⟨s₂, hreplicate, h₂⟩ := replicate_stage cfg may i h₁ (setOf key)
  refine ⟨s₂, .bind hstart ?_, h₂⟩
  dsimp only
  rw [toLog_setOf]
  exact .bind (.bind happend (.refl _ _)) (.bind (.bind hreplicate (.refl _ _)) (.refl _ _))

def setKey (key : Bytes) : Command := ⟨Env.still, setOf key, none⟩

theorem setKey_isWrite : (extractWriteCommandName (setKey key).frame).isSome :=
  isSome_of_eq_some (setFrame_isWrite key (txt "v") [])

theorem guards_back {L : Finset (Fin shardCount)}
    (hfree : ∀ j ∈ L, guards j = none) (hnone : ∀ j, guards j ≠ some i) :
    (fun j => if (if j ∈ L then some i else guards j) = some i then none
      else if j ∈ L then some i else guards j) = guards := by
  funext j
  by_cases hj : j ∈ L
  · simp [hj, hfree j hj]
  · simp [hj, hnone j]

theorem single_stage (hpolicy : cfg.policy = .always) (h : s.Stage guards log)
    (hfree : ∀ j ∈ keyGuards [key], guards j = none) (hnone : ∀ j, guards j ≠ some i)
    (hmay : may i (setOf key) log)
    (hsize : ((logBytes ((log ++ [(i, setOf key)]).map Prod.snd)).length : Int) ≤ i64Max) :
    ∃ s', (server F cfg).Runs (Undisturbed may) i ((Request.single (setKey key)).program cfg) s
        (.ret okReply) s' ∧ s'.Stage guards (log ++ [(i, setOf key)]) := by
  obtain ⟨s₁, hlock, h₁⟩ := lockKeys_stage cfg may i h [key] hfree
  obtain ⟨s₂, hmutate, h₂⟩ := mutateAndLog_stage cfg may i key hpolicy h₁ hmay hsize
  obtain ⟨s₃, hunlock, h₃⟩ := unlockShards_stage cfg may i h₂
  rw [guards_back i hfree hnone] at h₃
  refine ⟨s₃, ?_, h₃⟩
  rw [Request.program, gated_write rfl (setKey_isWrite key)]
  exact .bind hlock (.bind hmutate (.bind hunlock (.refl _ _)))

def afterMulti (cfg : Settings) (queued : List Command) : ServerProgram F Frame :=
  (do
    let replies ← runQueued cfg queued
    appendTransactionMarker cfg .exec
    return replies) >>= fun replies => do
  unlockShards
  return .array replies

theorem multi_stage (hpolicy : cfg.policy = .always) (h : s.Stage guards log)
    (hfree : ∀ j ∈ keyGuards [key], guards j = none) (hmay : may i (markerFrame .multi) log)
    (hsize : ((logBytes ((log ++ [(i, markerFrame .multi)]).map Prod.snd)).length : Int) ≤ i64Max) :
    ∃ s', (server F cfg).Runs (Undisturbed may) i ((Request.exec [setKey key]).program cfg) s
        (afterMulti cfg [setKey key]) s' ∧
      s'.Stage (fun j => if j ∈ keyGuards [key] then some i else guards j)
        (log ++ [(i, markerFrame .multi)]) := by
  obtain ⟨s₁, hlock, h₁⟩ := lockKeys_stage cfg may i h [key] hfree
  obtain ⟨s₂, hmarker, h₂⟩ := appendMarker_stage cfg may i hpolicy h₁ hmay hsize
  refine ⟨s₂, .bind hlock ?_, h₂⟩
  have hwrites : ([setKey key].any fun c => (extractWriteCommandName c.frame).isSome) = true := by
    rw [any_cons, setKey_isWrite, Bool.true_or]
  rw [runBatch, if_pos hwrites]
  exact .within _ (.bind hmarker (.refl _ _))

theorem exec_stage (hpolicy : cfg.policy = .always) (h : s.Stage guards log)
    (hmay : may i (setOf key) log)
    (hmay' : may i (markerFrame .exec) (log ++ [(i, setOf key)]))
    (hsize : ((logBytes ((log ++ [(i, setOf key)] ++ [(i, markerFrame .exec)]).map
      Prod.snd)).length : Int) ≤ i64Max) :
    ∃ s', (server F cfg).Runs (Undisturbed may) i (afterMulti cfg [setKey key]) s
        (.ret (.array [okReply])) s' ∧
      s'.Stage (fun j => if guards j = some i then none else guards j)
        (log ++ [(i, setOf key)] ++ [(i, markerFrame .exec)]) := by
  have hfirst : ((logBytes ((log ++ [(i, setOf key)]).map Prod.snd)).length : Int) ≤ i64Max := by
    rw [map_append, logBytes_append, length_append] at hsize
    omega
  obtain ⟨s₁, hmutate, h₁⟩ := mutateAndLog_stage cfg may i key hpolicy h hmay hfirst
  obtain ⟨s₂, hmarker, h₂⟩ := appendMarker_stage cfg may i hpolicy h₁ hmay' hsize
  obtain ⟨s₃, hunlock, h₃⟩ := unlockShards_stage cfg may i h₂
  have hgated : (server F cfg).Runs (Undisturbed may) i
      (dispatchAndLogGated cfg false (setKey key)) s (.ret okReply) s₁ := by
    rw [gated_write rfl (setKey_isWrite key)]
    exact .bind hmutate (.refl _ _)
  refine ⟨s₃, .bind (.bind (.bind hgated (.refl _ _)) (.bind hmarker (.refl _ _))) ?_, h₃⟩
  exact .bind hunlock (.refl _ _)

structure MayBatch : Prop where
  multi : may 0 (markerFrame .multi) []
  queued : may 0 (setOf (txt "k")) [(0, markerFrame .multi)]
  exec : may 0 (markerFrame .exec) [(0, markerFrame .multi), (0, setOf (txt "k"))]
  single : may 1 (setOf (txt "l"))
    [(0, markerFrame .multi), (0, setOf (txt "k")), (0, markerFrame .exec)]

def asked (F : Type) [F64 F] (rs : List Request) : ServerConfig F :=
  serving (.ofPolicy .always) (Node.new (.ofPolicy .always)) fun i => rs[i]?

def batchAndSet : List Request := [.exec [setKey (txt "k")], .single (setKey (txt "l"))]

variable {may} in
theorem batch_then_set (hmay : MayBatch may) :
    ∃ final : ServerConfig F,
      (server F (.ofPolicy .always)).Reaches (Undisturbed may) (asked F batchAndSet) final ∧
      final.threads 0 = some (.ret (.array [okReply])) ∧ final.threads 1 = some (.ret okReply) := by
  have hnew : (Node.new (.ofPolicy .always) : Node F).Stage (fun _ => none) [] := Node.stage_new _
  obtain ⟨s₁, hmulti, h₁⟩ := multi_stage (.ofPolicy .always) may 0 (txt "k") rfl hnew
    (fun _ _ => rfl) hmay.multi (by decide)
  obtain ⟨s₂, hexec, h₂⟩ := exec_stage (.ofPolicy .always) may 0 (txt "k") rfl h₁
    hmay.queued hmay.exec (by decide)
  rw [guards_back 0 (fun _ _ => rfl) (fun _ => nofun)] at h₂
  obtain ⟨s₃, hsingle, -⟩ := single_stage (.ofPolicy .always) may 1 (txt "l") rfl h₂
    (fun _ _ => rfl) (fun _ => nofun) hmay.single (by decide)
  have hfirst : (server F (.ofPolicy .always)).Reaches (Undisturbed may) (asked F batchAndSet) _ :=
    Machine.Reaches.runs .refl (i := 0) rfl (hmulti.trans hexec)
  exact ⟨_, hfirst.runs (i := 1) rfl hsingle, rfl, rfl⟩

theorem set_amid_batch :
    ∃ final : ServerConfig F,
      (server F (.ofPolicy .always)).Reaches Smooth (asked F batchAndSet) final ∧
      final.threads 1 = some (.ret okReply) ∧
      ∃ guards, final.shared.Stage guards [(0, markerFrame .multi), (1, setOf (txt "l"))] := by
  have hnew : (Node.new (.ofPolicy .always) : Node F).Stage (fun _ => none) [] := Node.stage_new _
  obtain ⟨s₁, hmulti, h₁⟩ := multi_stage (.ofPolicy .always) (fun _ _ _ => True) 0 (txt "k")
    rfl hnew (fun _ _ => rfl) trivial (by decide)
  obtain ⟨s₂, hsingle, h₂⟩ := single_stage (.ofPolicy .always) (fun _ _ _ => True) 1 (txt "l")
    rfl h₁ (by decide) (by decide) trivial (by decide)
  have hfirst : (server F (.ofPolicy .always)).Reaches (Undisturbed fun _ _ _ => True)
      (asked F batchAndSet) _ := Machine.Reaches.runs .refl (i := 0) rfl hmulti
  refine ⟨_, (hfirst.runs (i := 1) rfl hsingle).mono fun _ _ _ _ h => ⟨h.1, h.2.2.1⟩, rfl, _, h₂⟩

def twoBatches : List Request := [.exec [setKey (txt "k")], .exec [setKey (txt "l")]]

theorem batches_entwined :
    ∃ final : ServerConfig F,
      (server F (.ofPolicy .always)).Reaches Smooth (asked F twoBatches) final ∧
      final.threads 0 = some (.ret (.array [okReply])) ∧
      final.threads 1 = some (.ret (.array [okReply])) ∧
      ∃ guards, final.shared.Stage guards [(0, markerFrame .multi), (1, markerFrame .multi),
        (0, setOf (txt "k")), (0, markerFrame .exec), (1, setOf (txt "l")),
        (1, markerFrame .exec)] := by
  have hnew : (Node.new (.ofPolicy .always) : Node F).Stage (fun _ => none) [] := Node.stage_new _
  obtain ⟨s₁, hmulti, h₁⟩ := multi_stage (.ofPolicy .always) (fun _ _ _ => True) 0 (txt "k")
    rfl hnew (fun _ _ => rfl) trivial (by decide)
  obtain ⟨s₂, hmulti', h₂⟩ := multi_stage (.ofPolicy .always) (fun _ _ _ => True) 1 (txt "l")
    rfl h₁ (by decide) trivial (by decide)
  obtain ⟨s₃, hexec, h₃⟩ := exec_stage (.ofPolicy .always) (fun _ _ _ => True) 0 (txt "k")
    rfl h₂ trivial trivial (by decide)
  obtain ⟨s₄, hexec', h₄⟩ := exec_stage (.ofPolicy .always) (fun _ _ _ => True) 1 (txt "l")
    rfl h₃ trivial trivial (by decide)
  have hfirst : (server F (.ofPolicy .always)).Reaches (Undisturbed fun _ _ _ => True)
      (asked F twoBatches) _ := Machine.Reaches.runs .refl (i := 0) rfl hmulti
  have hall := ((hfirst.runs (i := 1) rfl hmulti').runs (i := 0) rfl hexec).runs (i := 1) rfl hexec'
  exact ⟨_, hall.mono fun _ _ _ _ h => ⟨h.1, h.2.2.1⟩, rfl, rfl, _, h₄⟩

end

section

variable {F : Type} [F64 F] {cfg : Settings} {node : Node F} {requests : Nat → Option Request}
  {final : ServerConfig F}

/-- Writers whose appends succeed, of whom nobody opens a transaction while one is open. -/
def OneBatchAtATime (i : Nat) (x : Option Fault) (o : ServerOp F) (s : Node F) : Prop :=
  o.OfWriters ∧ AppendsSucceed i x o s ∧
    ∀ frame, o = .append frame → marker frame = some .multi → openBatch s.log = none

theorem batchesApart_oneBatch : BatchesApart (F := F) OneBatchAtATime :=
  fun _ _ frame _ hp hm => .inl (hp.2.2 frame rfl hm)

theorem openBatch_requested (hlog : node.log = [])
    {permits : Nat → Option Fault → ServerOp F → Node F → Prop}
    (hrun : (server F cfg).Reaches permits (serving cfg node requests) final) {i : Nat}
    (hopen : openBatch final.shared.log = some i) : requests i ≠ none := by
  have hlogged : ∀ e ∈ final.shared.log, requests e.1 ≠ none := by
    refine hrun.invariant (I := fun s : Node F => ∀ e ∈ s.log, requests e.1 ≠ none) ?_ ?_
      fun _ _ h => h
    · change ∀ e ∈ node.log, _
      rw [hlog]
      exact nofun
    · intro j x o r s s' hj _ hx h e he
      by_cases ho : o.IsAppend
      · cases o with
        | append frame =>
          obtain ⟨disk, hrest⟩ := Node.append_frame j x frame s
          obtain rfl : (s.append j x frame).2 = s' := congrArg Prod.snd (some.inj hx)
          rw [hrest] at he
          rcases mem_append.mp he with he | he
          · exact h e he
          · rw [mem_singleton.mp he]
            exact fun hnone => hj (congrArg (Option.map (Request.program cfg)) hnone)
        | _ => exact ho.elim
      · rw [(exec_unlogged ho hx).log] at he
        exact h e he
  obtain ⟨g, hg, hheld⟩ := bind_eq_some_iff.mp hopen
  obtain ⟨⟨j, held⟩, hopened, rfl⟩ := map_eq_some_iff.mp hheld
  obtain ⟨e, he, hei, -⟩ := held_opened hg hopened
  exact hei ▸ hlogged e he

/-- However EXEC batches and single writes interleave, as long as no transaction is opened inside
another, the log groups; once every request has been answered each logged command has been
released, in the order of the log, and a replay of the AOF dispatches every one of them and cuts
nothing off. -/
theorem batches_stay_framed {old : List Frame} (hopened : node.Opened old)
    (hrun : (server F cfg).Reaches OneBatchAtATime (serving cfg node requests) final) :
    (∃ released g, TransactionGrouper.new.feedAll final.shared.frames = .ok (released, g)) ∧
    ((∀ i, requests i ≠ none → ∃ reply, final.threads i = some (.ret reply)) →
      TransactionGrouper.new.feedAll final.shared.frames =
          .ok (commands final.shared.frames, .new) ∧
        ∀ (env : Env) (st : Store F),
          replayWithStats .none env final.shared.aofPath 0 st final.shared.disk =
            (dispatchEach env (commands (old ++ final.shared.frames)) st).map fun st =>
              (.ok (⟨(commands (old ++ final.shared.frames)).length,
                (logBytes (old ++ final.shared.frames)).length⟩, st), final.shared.disk)) := by
  have hsustains := Discipline.sound (serving_framing cfg requests hopened.log hopened.synced
    batchesApart_oneBatch) hrun
  have hgrouped : (grouped final.shared.log).isSome := hsustains.inv.grouped
  refine ⟨?_, fun hreturned => ?_⟩
  · obtain ⟨g, hg⟩ := isSome_iff_exists.mp hgrouped
    exact ⟨_, _, feedAll_of_grouped hg⟩
  · have hclosed : openBatch final.shared.log = none := by
      by_contra hopen
      obtain ⟨i, hi⟩ := ne_none_iff_exists'.mp hopen
      have hrequested := openBatch_requested hopened.log hrun hi
      obtain ⟨reply, hret⟩ := hreturned i hrequested
      obtain ⟨r, hr⟩ := ne_none_iff_exists'.mp hrequested
      exact (hsustains.ret hret r hr).outside.mp hi
    have hfeed := feedAll_of_closed hgrouped hclosed
    refine ⟨hfeed, fun env st => ?_⟩
    have hwhole := whole_of_reaches hopened batchesApart_oneBatch (fun _ _ _ _ hp => ⟨hp.1, hp.2.1⟩)
      hrun
    obtain ⟨f, hf, hcontent, -⟩ := hwhole.file
    have hwire : ∀ f ∈ old ++ final.shared.frames, Resp2Frame f := fun f hf =>
      (mem_append.mp hf).elim (hopened.wire f) (hwhole.wire f)
    have hall : TransactionGrouper.new.feedAll (old ++ final.shared.frames) =
        .ok (commands (old ++ final.shared.frames), .new) := by
      rw [commands_append]
      exact TransactionGrouper.feedAll_append hopened.closed hfeed
    have hbytes : f.content = [] ++ (logBytes (old ++ final.shared.frames) ++ []) := by
      rw [hcontent, append_nil, nil_append]
    obtain ⟨validLen, hvalid, hreplay⟩ :=
      replayWithStats_encoded (F := F) env hf hbytes hwire (.inl decode_nil) hall
    have hlen : validLen = (logBytes (old ++ final.shared.frames)).length :=
      (hvalid rfl).trans (Nat.zero_add _)
    have hkept : ¬ validLen < f.content.length := by
      rw [hlen, hcontent]
      exact Nat.lt_irrefl _
    rw [length_nil] at hreplay
    rw [hreplay, if_neg hkept, hlen, Nat.sub_zero]

theorem oneBatch_of_undisturbed (i : Nat) (x : Option Fault) (o : ServerOp F) (s : Node F)
    (h : Undisturbed (fun _ frame log => marker frame = some .multi → openBatch log = none) i x o s) :
    OneBatchAtATime i x o s :=
  ⟨h.2.1, h.2.2.1, h.2.2.2⟩

theorem opened_new (cfg : Settings) : (Node.new cfg : Node F).Opened [] :=
  ⟨rfl, rfl, (Node.stage_new cfg).file, nofun, rfl⟩

theorem resp2_markerFrame (mk : Marker) : Resp2Frame (markerFrame mk) := by
  obtain ⟨words, hwords⟩ := markerFrame_command mk
  have hsize : ((encode .resp2 (markerFrame mk)).length : Int) ≤ i64Max := by
    cases mk <;> decide
  rw [hwords] at hsize ⊢
  exact (WireFrame.command words).resp2 hsize

theorem batches_stay_framed_set :
    ∃ final : ServerConfig Score,
      (server Score (.ofPolicy .always)).Reaches OneBatchAtATime (asked _ batchAndSet) final ∧
      final.threads 0 = some (.ret (.array [okReply])) ∧ final.threads 1 = some (.ret okReply) ∧
      TransactionGrouper.new.feedAll final.shared.frames =
        .ok (commands final.shared.frames, .new) := by
  have hmay : MayBatch fun _ frame log => marker frame = some .multi → openBatch log = none :=
    ⟨by decide, by decide, by decide, by decide⟩
  obtain ⟨final, hreach, hbatch, hsingle⟩ := batch_then_set (F := Score) hmay
  have hrun := hreach.mono oneBatch_of_undisturbed
  refine ⟨final, hrun, hbatch, hsingle, ((batches_stay_framed (opened_new _) hrun).2 ?_).1⟩
  intro i hi
  rcases i with _ | _ | i
  · exact ⟨_, hbatch⟩
  · exact ⟨_, hsingle⟩
  · exact absurd rfl hi

/-- Two batches on different shards: each takes its own guards, and the second opens its transaction
inside the first one's. Both are answered, everything has been fsynced, and a replay dispatches
nothing. -/
theorem batches_break_framing :
    ∃ final : ServerConfig Score,
      (server Score (.ofPolicy .always)).Reaches Smooth (asked _ twoBatches) final ∧
      final.threads 0 = some (.ret (.array [okReply])) ∧
      final.threads 1 = some (.ret (.array [okReply])) ∧
      (∃ e, TransactionGrouper.new.feedAll final.shared.frames = .error e) ∧
      ∀ env, ∃ stats disk, ∀ st : Store Score,
        replayWithStats .none env final.shared.aofPath 0 st final.shared.disk =
          some (.ok (stats, st), disk) := by
  obtain ⟨final, hreach, hfirst, hsecond, guards, hstage⟩ := batches_entwined (F := Score)
  refine ⟨final, hreach, hfirst, hsecond, ?_, fun env => ?_⟩
  · rw [Node.frames, hstage.entries]
    exact ⟨_, rfl⟩
  · obtain ⟨f, hf, hdurable, hpending⟩ := hstage.file
    have hbytes : f.content = [] ++ (logBytes [markerFrame .multi] ++ logBytes [markerFrame .multi,
        setOf (txt "k"), markerFrame .exec, setOf (txt "l"), markerFrame .exec]) := by
      rw [File.content, hdurable, hpending, append_nil]
      rfl
    have hfeed : TransactionGrouper.new.feedAll [markerFrame .multi] = .ok ([], ⟨some []⟩) := rfl
    obtain ⟨validLen, -, hreplay⟩ := replayWithStats_encoded (F := Score) env hf hbytes
      (fun f hf => mem_singleton.mp hf ▸ resp2_markerFrame .multi)
      (.inr ⟨_, _, _, by rw [logBytes_cons]; exact decode_encode (resp2_markerFrame .multi) _, rfl⟩) hfeed
    exact ⟨_, _, hreplay⟩

end

variable {F : Type} [F64 F] {cfg : Settings} {node : Node F} {requests : Nat → Option Request}
  {now : ServerConfig F}

/-- Writers whose appends succeed, of whom nobody logs anything while another's transaction is
open. -/
def NothingAmid (i : Nat) (x : Option Fault) (o : ServerOp F) (s : Node F) : Prop :=
  o.OfWriters ∧ AppendsSucceed i x o s ∧
    (o.IsAppend → openBatch s.log = none ∨ openBatch s.log = some i)

theorem batchesApart_nothingAmid : BatchesApart (F := F) NothingAmid :=
  fun _ _ _ _ hp _ => hp.2.2 trivial

theorem contained_of_reaches (hlog : node.log = [])
    (hrun : (server F cfg).Reaches NothingAmid (serving cfg node requests) now) :
    Contained now.shared.log := by
  refine hrun.invariant (I := fun s : Node F => Contained s.log) ?_ ?_ fun _ _ h => h
  · intro n g j held hg hheld
    change grouped (node.log.take n) = some g at hg
    rw [hlog, take_nil] at hg
    cases hg
    cases hheld
  · intro j x o r s s' _ hp hx h
    by_cases ho : o.IsAppend
    · cases o with
      | append frame =>
        obtain ⟨disk, hrest⟩ := Node.append_frame j x frame s
        obtain rfl : (s.append j x frame).2 = s' := congrArg Prod.snd (some.inj hx)
        rw [hrest]
        exact h.concat (hp.2.2 trivial)
      | _ => exact ho.elim
    · rw [(exec_unlogged ho hx).log]
      exact h

theorem WholeLog.crash {old : List Frame} {s : Node F} (h : WholeLog old s)
    (hold : ∀ f ∈ old, Resp2Frame f) (keep : Path → Nat) :
    ∃ f m tail, s.disk.crash keep s.aofPath = some f ∧ s.synced ≤ m ∧
      f.content = logBytes (old ++ s.frames.take m) ++ tail ∧ decode tail = .incomplete := by
  obtain ⟨f, hf, hcontent, hdurable⟩ := h.file
  obtain ⟨k, hk, -, hcut⟩ := f.crash_eq_take (keep s.aofPath)
  have hwire : ∀ f ∈ old ++ s.frames, Resp2Frame f := fun f hf =>
    (mem_append.mp hf).elim (hold f) (h.wire f)
  have hlen : (logBytes (old ++ s.frames)).length < 2 ^ 63 := by
    have hfits := f.content_length_le
    rw [hcontent] at hfits
    unfold i64Max at hfits
    omega
  obtain ⟨m, tail, htake, htail, hmost⟩ := logBytes_take hwire hlen k
  have hsynced : old ++ s.frames.take s.synced =
      (old ++ s.frames).take (old.length + s.synced) := by
    rw [take_length_add_append]
  have hprefix := hmost (old.length + s.synced) (by rwa [← hsynced, ← hdurable])
  have hm : old.length + s.synced ≤ m := by
    have hle := hprefix.length_le
    rw [length_take, length_take, length_append] at hle
    have := h.synced
    omega
  refine ⟨f.crash (keep s.aofPath), m - old.length, tail, ?_, by omega, ?_, htail⟩
  · simp [Disk.crash, hf]
  · rw [hcut, hcontent, htake, take_append, take_of_length_le (by omega : old.length ≤ m)]

/-- However EXEC batches and single writes interleave, as long as nothing is logged while another
connection's transaction is open, a replay of what a crash leaves of the AOF, which is at least what
had been fsynced, dispatches every single write that had been acknowledged. -/
theorem acknowledged_write_survives (hpolicy : cfg.policy = .always) {old : List Frame}
    (hopened : node.Opened old)
    (hrun : (server F cfg).Reaches NothingAmid (serving cfg node requests) now) {i : Nat}
    {c : Command} (hrequest : requests i = some (.single c)) (hanswered : c.answered = none)
    (hw : (extractWriteCommandName c.frame).isSome) {reply : Frame}
    (hreply : now.threads i = some (.ret reply)) (hok : reply.isError = false)
    (keep : Path → Nat) :
    ∃ applied, (toLog c.env.clock c.frame reply).Sublist applied ∧
      ∀ env, ∃ stats disk, ∀ st : Store F,
        replayWithStats .none env now.shared.aofPath 0 st (now.shared.disk.crash keep) =
          (dispatchEach env applied st).map fun st => (.ok (stats, st), disk) := by
  have hsustains := Discipline.sound (serving_framing cfg requests hopened.log hopened.synced
    batchesApart_nothingAmid) hrun
  have hacked := (hsustains.ret hreply _ hrequest).logged c rfl hanswered hw hpolicy
  have hwhole := whole_of_reaches hopened batchesApart_nothingAmid
    (fun _ _ _ _ hp => ⟨hp.1, hp.2.1⟩) hrun
  obtain ⟨f, m, tail, hf, hm, hcontent, htail⟩ := hwhole.crash hopened.wire keep
  obtain ⟨g, hg⟩ := isSome_iff_exists.mp (grouped_take hsustains.inv.grouped m)
  -- everything the thread logged is a write command and has been fsynced
  have hwrites : ∀ e ∈ now.shared.log, e.1 = i → marker e.2 = none := by
    intro e he hei
    refine marker_of_isWrite (toLog_isWrite c.env.clock c.frame reply e.2 ?_)
    rw [← hacked.own hok]
    exact mem_map_of_mem (mem_filter.mpr ⟨he, by simpa using hei⟩)
  have hlate : ∀ e ∈ now.shared.log.drop m, e.1 ≠ i := fun e he =>
    hacked.synced hok e ((drop_sublist_drop_left _ hm).subset he)
  have hown := (contained_of_reaches hopened.log hrun).released hg hwrites hlate
  have hfeed := feedAll_of_grouped hg
  rw [map_take] at hfeed
  have hall : TransactionGrouper.new.feedAll (old ++ now.shared.frames.take m) =
      .ok (commands old ++ g.released.map Prod.snd, g.grouper) :=
    TransactionGrouper.feedAll_append hopened.closed hfeed
  refine ⟨commands old ++ g.released.map Prod.snd, ?_, fun env => ?_⟩
  · refine List.Sublist.trans ?_ (sublist_append_right _ _)
    rw [← hacked.own hok, Node.ownFrames, hown]
    exact filter_sublist.map Prod.snd
  · have hwire : ∀ f ∈ old ++ now.shared.frames.take m, Resp2Frame f := fun f hf =>
      (mem_append.mp hf).elim (hopened.wire f) fun h => hwhole.wire f (mem_of_mem_take h)
    have hbytes : f.content = [] ++ (logBytes (old ++ now.shared.frames.take m) ++ tail) := hcontent
    obtain ⟨validLen, -, hreplay⟩ :=
      replayWithStats_encoded (F := F) env hf hbytes hwire (.inl htail) hall
    exact ⟨_, _, hreplay⟩

theorem nothingAmid_of_undisturbed (i : Nat) (x : Option Fault) (o : ServerOp F) (s : Node F)
    (h : Undisturbed (fun i _ log => openBatch log = none ∨ openBatch log = some i) i x o s) :
    NothingAmid i x o s := by
  refine ⟨h.2.1, h.2.2.1, fun happend => ?_⟩
  cases o with
  | append frame => exact h.2.2.2 frame rfl
  | _ => exact happend.elim

theorem acknowledged_write_survives_set :
    ∃ now : ServerConfig Score,
      (server Score (.ofPolicy .always)).Reaches NothingAmid (asked _ batchAndSet) now ∧
      now.threads 1 = some (.ret okReply) ∧
      ∀ keep, ∃ applied, [setOf (txt "l")].Sublist applied ∧
        ∀ env, ∃ stats disk, ∀ st : Store Score,
          replayWithStats .none env now.shared.aofPath 0 st (now.shared.disk.crash keep) =
            (dispatchEach env applied st).map fun st => (.ok (stats, st), disk) := by
  have hmay : MayBatch fun i _ log => openBatch log = none ∨ openBatch log = some i :=
    ⟨by decide, by decide, by decide, by decide⟩
  obtain ⟨now, hreach, -, hsingle⟩ := batch_then_set (F := Score) hmay
  have hrun := hreach.mono nothingAmid_of_undisturbed
  refine ⟨now, hrun, hsingle, fun keep => ?_⟩
  have hlogged : toLog (setKey (txt "l")).env.clock (setKey (txt "l")).frame okReply =
      [setOf (txt "l")] := toLog_setOf (txt "l")
  rw [← hlogged]
  exact acknowledged_write_survives rfl (opened_new _) hrun (i := 1) rfl rfl (setKey_isWrite _)
    hsingle rfl keep

/-- The MULTI marker of a batch is in the log, its EXEC marker is not: a SET on another shard is
answered with OK and fsynced, and after a crash a replay dispatches nothing. -/
theorem acknowledged_write_lost :
    ∃ now : ServerConfig Score,
      (server Score (.ofPolicy .always)).Reaches Smooth (asked _ batchAndSet) now ∧
      now.threads 1 = some (.ret okReply) ∧
      ∀ keep env, ∃ stats disk, ∀ st : Store Score,
        replayWithStats .none env now.shared.aofPath 0 st (now.shared.disk.crash keep) =
          some (.ok (stats, st), disk) := by
  obtain ⟨now, hreach, hsingle, guards, hstage⟩ := set_amid_batch (F := Score)
  refine ⟨now, hreach, hsingle, fun keep env => ?_⟩
  obtain ⟨f, hf, hdurable, hpending⟩ := hstage.file
  have hcrash : now.shared.disk.crash keep now.shared.aofPath =
      some (f.crash (keep now.shared.aofPath)) := congrArg (Option.map _) hf
  have hbytes : (f.crash (keep now.shared.aofPath)).content =
      [] ++ (logBytes [markerFrame .multi, setOf (txt "l")] ++ []) := by
    rw [File.content_crash, hdurable, hpending, take_nil]
    rfl
  have hwire : ∀ f ∈ [markerFrame .multi, setOf (txt "l")], Resp2Frame f := by
    intro f hf
    rcases mem_cons.mp hf with rfl | hf
    · exact resp2_markerFrame .multi
    · rw [mem_singleton.mp hf]
      exact (WireFrame.command [txt "SET", txt "l", txt "v"]).resp2 (by decide)
  have hfeed : TransactionGrouper.new.feedAll [markerFrame .multi, setOf (txt "l")] =
      .ok ([], ⟨some [setOf (txt "l")]⟩) := rfl
  obtain ⟨validLen, -, hreplay⟩ := replayWithStats_encoded (F := Score) env hcrash hbytes hwire
    (.inl decode_nil) hfeed
  exact ⟨_, _, hreplay⟩

end RocketMem
