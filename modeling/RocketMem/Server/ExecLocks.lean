import RocketMem.Framework.LockOrder
import RocketMem.Server.Contract

namespace RocketMem

open Option Function Finset ServerOp

variable {F : Type} [F64 F]

/-- A thread that asks for a lock does not wait for itself, nor for a SAVE or BGREWRITEAOF that
waits for it: it asks for no guard it holds, and for the rewrite lock only without any guard. -/
def ServerOp.WaitsForOthers (i : Nat) (s : Node F) : ServerOp F → Prop
  | lockShard j => s.guards j ≠ some i
  | lockRewrite => ∀ j, s.guards j ≠ some i
  | _ => True

/-- The locks in the order in which they are taken: the rewrite lock, then the ordering guards. -/
abbrev Lock := Fin (shardCount + 1)

def Node.holder (s : Node F) : Lock → Option Nat := Fin.cases s.rewriting s.guards

def ServerOp.wants : ServerOp F → Option Lock
  | lockShard j => some j.succ
  | lockRewrite => some 0
  | _ => none

def guardLocks : Finset Lock := univ.erase 0

def ServerOp.frees : ServerOp F → Finset Lock
  | unlockShards => guardLocks
  | unlockRewrite => {0}
  | _ => ∅

section

variable {cfg : Settings} {i : Nat} {x : Option Fault} {o : ServerOp F} {s s' : Node F} {r : o.Ret}

theorem holder_taken (hx : (server F cfg).exec i x o s = some (r, s')) {l : Lock}
    (hl : o.wants = some l) : s.holder l = none ∧ s'.holder = update s.holder l (some i) := by
  cases o with
  | lockShard j =>
    obtain rfl := some.inj hl
    obtain ⟨hfree, rfl⟩ := exec_lockShard hx
    refine ⟨hfree, funext (Fin.cases ?_ fun j' => ?_)⟩
    · exact (update_of_ne (Fin.succ_ne_zero j).symm _ _).symm
    · simp [update_apply, Node.holder, Node.takeShard_guards]
  | lockRewrite =>
    obtain rfl := some.inj hl
    simp only [server, exec] at hx
    split at hx
    · next hfree =>
      obtain ⟨-, rfl⟩ := Prod.mk.inj (some.inj hx)
      refine ⟨hfree, funext (Fin.cases rfl fun j => ?_)⟩
      exact (update_of_ne (Fin.succ_ne_zero j) _ _).symm
    · cases hx
  | _ => cases hl

theorem holder_freed (hx : (server F cfg).exec i x o s = some (r, s')) (hl : o.wants = none) :
    s'.holder = letGo i o.frees s.holder := by
  have hkept (h : o.Lockless) (hnone : o.frees = ∅) : s'.holder = letGo i o.frees s.holder := by
    obtain ⟨hguards, hrewriting⟩ := (exec_leaves hx).lockless h
    funext l
    simp [letGo, hnone, Node.holder, hguards, hrewriting]
  cases o with
  | lockShard | lockRewrite => cases hl
  | unlockShards =>
    obtain ⟨-, rfl⟩ := Prod.mk.inj (some.inj hx)
    refine funext (Fin.cases ?_ fun j => ?_)
    · simp [letGo, frees, guardLocks, Node.holder, Node.releaseShards]
    · simp [letGo, frees, guardLocks, Node.holder, Node.releaseShards]
  | unlockRewrite =>
    obtain ⟨-, rfl⟩ := Prod.mk.inj (some.inj hx)
    refine funext (Fin.cases ?_ fun j => ?_)
    · simp [letGo, frees, Node.holder, Node.releaseRewrite]
    · simp [letGo, frees, Node.holder, Node.releaseRewrite]
  | _ => exact hkept trivial rfl

theorem holder_unwound (i : Nat) (s : Node F) :
    ((server F cfg).unwind i s).holder = letGo i univ s.holder := by
  refine funext (Fin.cases ?_ fun j => ?_)
  · exact (if_congr (and_iff_left (mem_univ _)) rfl rfl).symm
  · exact (if_congr (and_iff_left (mem_univ _)) rfl rfl).symm

omit x s' r in
theorem requested_runs (ho : o.Requested) (hfree : ∀ l, o.wants = some l → s.holder l = none) :
    ∃ x r s', (server F cfg).exec i x o s = some (r, s') := by
  refine ⟨none, ?_⟩
  cases o with
  | lockShard j =>
    have hj : s.guards j = none := hfree _ rfl
    simp [server, exec, hj]
  | lockRewrite =>
    have hnone : s.rewriting = none := hfree _ rfl
    simp [server, exec, hnone]
  | follow | clearShard => exact ho.elim
  | aofLen =>
    simp only [server, exec]
    split <;> exact ⟨_, _, rfl⟩
  | _ => exact ⟨_, _, rfl⟩

end

def serverLocks (F : Type) [F64 F] (cfg : Settings) : LockOrder (server F cfg) Lock where
  holder := Node.holder
  wants := wants
  frees := frees
  ready := ServerOp.Requested
  taken hx hl := holder_taken hx hl
  freed hx hl := holder_freed hx hl
  unwound := holder_unwound
  free ho hfree := requested_runs ho hfree

def Holding (i : Nat) (L : Finset (Fin shardCount)) (s : Node F) : Prop :=
  ∀ j, s.guards j = some i ↔ j ∈ L

section

variable {i : Nat} {cfg : Settings} {s s' : Node F} {L : Finset (Fin shardCount)} {x : Option Fault}

theorem Holding.lock {j : Fin shardCount} {r : Unit}
    (hx : (server F cfg).exec i x (.lockShard j) s = some (r, s')) (h : Holding i L s) :
    j ∉ L ∧ Holding i (insert j L) s' := by
  obtain ⟨hfree, rfl⟩ := exec_lockShard hx
  refine ⟨fun hj => ?_, fun j' => ?_⟩
  · rw [(h j).mpr hj] at hfree
    cases hfree
  · rw [Node.takeShard_guards]
    split
    · next hj => simp [hj]
    · next hj => simp [h j', hj]

theorem Holding.unlock {r : Unit}
    (hx : (server F cfg).exec i x .unlockShards s = some (r, s')) : Holding i ∅ s' := by
  obtain rfl := some.inj (congrArg (Option.map Prod.snd) hx)
  intro j
  change (if s.guards j = some i then none else s.guards j) = some i ↔ j ∈ ∅
  split
  · simp
  · next hj => simp [hj]

end

def Command.Queueable (c : Command) : Prop :=
  isNamed "SAVE" c.frame = false ∧ isNamed "BGREWRITEAOF" c.frame = false

section

variable {cfg : Settings} {L : Finset Lock} {α β : Type}

/-- The program takes locks in their order, and lets go of those it has taken. -/
abbrev Ordered (cfg : Settings) (L : Finset Lock) (p : ServerProgram F α) : Prop :=
  (serverLocks F cfg).Ascends (fun _ L' => L' = L) p L

def ServerOp.Inner (o : ServerOp F) : Prop := o.Requested ∧ o.Lockless

theorem inner_ordered {p : ServerProgram F α} (hp : p.Calls ServerOp.Inner) : Ordered cfg L p := by
  refine .of_calls (hp.mono fun o ho => ⟨ho.1, ?_⟩)
  cases o with
  | lockShard | unlockShards | lockRewrite | unlockRewrite => exact ho.2.elim
  | _ => exact ⟨rfl, rfl⟩

theorem plumbing_inner (o : ServerOp F) (ho : o.Plumbing) (hl : o.Lockless) : o.Inner :=
  ⟨ho.around.requested, hl⟩

theorem around_inner (o : ServerOp F) (ho : o.Around) (hl : o.Lockless) : o.Inner :=
  ⟨ho.requested, hl⟩

theorem Command.Queueable.within {c : Command} (h : c.Queueable) :
    c.Within (ServerOp.Inner (F := F)) where
  engine := liftEngine_calls_any (fun _ => ⟨trivial, trivial⟩) _
  logs _ _ _ := ⟨trivial, trivial⟩
  files hname := absurd hname (by simp [h.1, h.2])

theorem lockEach_ascends {shards : List (Fin shardCount)} (hsorted : shards.Pairwise (· < ·))
    {M : Finset Lock} (hM : L \ guardLocks = M) (habove : ∀ j ∈ shards, ∀ l ∈ L, l < j.succ) :
    (serverLocks F cfg).Ascends (fun _ L' => L' \ guardLocks = M)
      (shards.forM fun j => perform (.lockShard j)) L := by
  induction shards generalizing L with
  | nil => exact hM
  | cons j shards ih =>
    obtain ⟨hj, hsorted⟩ := List.pairwise_cons.mp hsorted
    refine ⟨trivial, fun l hl => ?_, fun _ => ih hsorted (L := insert j.succ L) ?_ ?_⟩
    · obtain rfl := some.inj hl
      exact habove j List.mem_cons_self
    · rw [insert_sdiff_of_mem, hM]
      simp [guardLocks]
    · intro j' hj' l hl
      rcases mem_insert.mp hl with rfl | hl
      · exact Fin.succ_lt_succ_iff.mpr (hj j' hj')
      · exact habove j' (List.mem_cons_of_mem j hj') l hl

theorem unlock_ordered {L' : Finset Lock} (hL' : L' \ guardLocks = L) {p : ServerProgram F α}
    (hp : Ordered cfg L p) :
    (serverLocks F cfg).Ascends (fun _ L' => L' = L) (do unlockShards; p) L' := by
  subst hL'
  exact ⟨trivial, nofun, fun _ => hp⟩

variable (hL : L ⊆ {0})

include hL

/-- Guards are taken by a thread that holds the rewrite lock at most. -/
theorem lockKeys_ascends (keys : List Bytes) :
    (serverLocks F cfg).Ascends (fun _ L' => L' \ guardLocks = L) (lockKeys keys) L := by
  have hshards (shards : List (Fin shardCount)) : (serverLocks F cfg).Ascends
      (fun _ L' => L' \ guardLocks = L) (lockShards shards) L := by
    refine lockEach_ascends (sortedLT_sort _).pairwise ?_ fun j _ l hl => ?_
    · refine sdiff_eq_self_of_disjoint (disjoint_left.mpr fun l hl => ?_)
      rw [mem_singleton.mp (hL hl)]
      simp [guardLocks]
    · rw [mem_singleton.mp (hL hl)]
      exact Fin.succ_pos j
  unfold lockKeys
  split
  · exact hshards _
  · exact hshards _

theorem underGuards_ordered (keys : List Bytes) {p : ServerProgram F α} {f : α → ServerProgram F β}
    (hp : p.Calls ServerOp.Inner) (hf : ∀ a, Ordered cfg L (f a)) :
    Ordered cfg L (do lockKeys keys; let a ← p; unlockShards; f a) := by
  refine (lockKeys_ascends hL keys).bind fun _ L' hL' => ?_
  exact .then (inner_ordered hp) fun a => unlock_ordered hL' (hf a)

theorem saveSnapshot_ordered (env : Env) : Ordered cfg L (saveSnapshot (F := F) cfg env) := by
  refine .then (inner_ordered (readGeneration_calls cfg plumbing_inner)) fun gen => ?_
  cases gen with
  | error e => rfl
  | ok gen =>
    refine .then (M := L) ?_ fun image => ?_
    · refine underGuards_ordered hL [] ?_ fun _ => rfl
      exact attempt_calls (currentOffset_calls plumbing_inner) fun offset =>
        (snapshot_calls plumbing_inner env offset).map _
    · cases image with
      | error e => rfl
      | ok bytes =>
        refine .then (inner_ordered (writeAtomically_calls around_inner _ bytes)) fun written => ?_
        cases written <;> rfl

theorem rewriteAof_ordered (env : Env) : Ordered cfg L (rewriteAof (F := F) cfg env) := by
  refine .then (M := L) ?_ fun started => ?_
  · refine underGuards_ordered hL [] ?_ fun _ => rfl
    refine attempt_calls (readGeneration_calls cfg plumbing_inner) fun gen => ?_
    refine .bind (snapshot_calls plumbing_inner env 0) fun bytes => ?_
    exact attempt_calls (.perform ⟨trivial, trivial⟩) fun _ => .ret _
  · rcases started with e | ⟨next, bytes⟩
    · rfl
    refine inner_ordered (.bind (writeAtomically_calls around_inner _ bytes) fun written => ?_)
    cases written with
    | error e => exact .ret _
    | ok u =>
      refine .bind (writeAtomically_calls around_inner _ _) fun committed => ?_
      cases committed with
      | error e => exact .ret _
      | ok u =>
        exact .bind (.perform ⟨trivial, trivial⟩) fun _ =>
          .bind (.perform ⟨trivial, trivial⟩) fun _ => .ret _

omit hL

theorem underRewriteLock_ordered {p : ServerProgram F Frame} (hp : Ordered cfg {0} p) :
    Ordered cfg ∅ (do perform .lockRewrite; let reply ← p; perform .unlockRewrite; return reply) := by
  refine ⟨trivial, fun _ _ => by simp, fun _ => ?_⟩
  change (serverLocks F cfg).Ascends _ (p >>= _) (insert 0 ∅)
  rw [insert_empty_eq]
  exact .then hp fun _ => ⟨trivial, nofun, fun _ => Finset.sdiff_self _⟩

theorem single_ordered (c : Command) : Ordered cfg ∅ (dispatchAndLogGated (F := F) cfg true c) := by
  unfold dispatchAndLogGated
  split
  · rfl
  · split_ifs with hsave hrewrite
    · exact underRewriteLock_ordered (saveSnapshot_ordered subset_rfl c.env)
    · exact underRewriteLock_ordered (rewriteAof_ordered subset_rfl c.env)
    · exact inner_ordered (runPublish_calls plumbing_inner _)
    · have hc : c.Queueable := ⟨Bool.eq_false_iff.mpr hsave, Bool.eq_false_iff.mpr hrewrite⟩
      exact underGuards_ordered (empty_subset _) _
        (mutateAndLog_calls cfg plumbing_inner hc.within) fun _ => rfl
    · exact inner_ordered (liftEngine_calls_any (fun _ => ⟨trivial, trivial⟩) _)

/-- What an EXEC may be asked to run. -/
def Request.Queueable (r : Request) : Prop :=
  ∀ queued, r = .exec queued → ∀ c ∈ queued, c.answered = none → c.Queueable

theorem request_ordered {r : Request} (hr : r.Queueable) : Ordered cfg ∅ (r.program (F := F) cfg) := by
  cases r with
  | single c => exact single_ordered c
  | exec queued =>
    exact underGuards_ordered (empty_subset _) _ (runBatch_calls cfg plumbing_inner
      (fun _ => ⟨trivial, trivial⟩) fun c hc hnone => (hr queued rfl c hc hnone).within) fun _ => rfl
  | psync env =>
    refine (lockKeys_ascends (empty_subset _) []).bind fun _ L' hL' => ?_
    refine .then (inner_ordered (.perform ⟨trivial, trivial⟩)) fun offset => ?_
    refine .then (inner_ordered (snapshot_calls plumbing_inner env _)) fun blob => ?_
    exact .then (inner_ordered (.perform ⟨trivial, trivial⟩)) fun _ => unlock_ordered hL' rfl
  | fsync => exact inner_ordered (.bind (.perform ⟨trivial, trivial⟩) fun _ => .ret _)

theorem serving_tidy {node : Node F} {requests : Nat → Option Request} {i : Nat}
    (hfree : ∀ l, node.holder l ≠ some i) (hi : ∀ r, requests i = some r → r.Queueable) :
    (serverLocks F cfg).Tidy i (serving cfg node requests) := by
  refine ⟨∅, fun l => iff_of_false (hfree l) (notMem_empty l), fun _ => rfl, fun p hp => ?_⟩
  obtain ⟨r, hr, rfl⟩ := map_eq_some_iff.mp hp
  exact request_ordered (hi r hr)

/-- An EXEC whose queue has no SAVE and no BGREWRITEAOF never waits for itself, whatever the other
requests do; and where that is so of every queue, the server is never stuck. -/
theorem exec_waits_for_others {e : Nat} {node : Node F} {requests : Nat → Option Request}
    {final : ServerConfig F} {queued : List Command} (he : requests e = some (.exec queued))
    (hqueued : ∀ c ∈ queued, c.answered = none → c.Queueable)
    (hguards : ∀ j, node.guards j = none) (hrewriting : node.rewriting = none)
    (hrun : (server F cfg).Reaches (fun _ _ _ _ => True) (serving cfg node requests) final) :
    (∀ o k, final.threads e = some (.call o k) → o.WaitsForOthers e final.shared) ∧
      ((∀ i r, requests i = some r → r.Queueable) → ¬ final.Settled →
        (server F cfg).GoesOn final) := by
  have hfree (i : Nat) (l : Lock) : node.holder l ≠ some i := by
    refine Fin.cases ?_ (fun j => ?_) l
    · exact fun h => nomatch hrewriting.symm.trans h
    · exact fun h => nomatch (hguards j).symm.trans h
  refine ⟨fun o k hnext => ?_, fun hall => ?_⟩
  · have hexec (r : Request) (hr : requests e = some r) : r.Queueable := by
      rintro queued' rfl
      cases he.symm.trans hr
      exact hqueued
    have htidy : (serverLocks F cfg).Tidy e final := (serving_tidy (hfree e) hexec).reaches hrun
    cases o with
    | lockShard j => exact fun hj => lt_irrefl _ (htidy.below hnext (b := j.succ) rfl hj)
    | lockRewrite => exact fun j hj => Fin.not_lt_zero _ (htidy.below hnext (b := j.succ) rfl hj)
    | _ => trivial
  · exact LockOrder.goesOn fun i => (serving_tidy (hfree i) (hall i)).reaches hrun

end

def saveFrame : Frame := .command [txt "SAVE"]

def saveCommand : Command := ⟨Env.still, saveFrame, none⟩

theorem saveCommand_program (cfg : Settings) :
    (Request.single saveCommand).program cfg =
      (handleSave cfg Env.still : ServerProgram Score Frame) := by
  have hsave : isNamed "SAVE" saveFrame = true := by decide
  change dispatchAndLogGated cfg true saveCommand = _
  unfold dispatchAndLogGated
  exact if_pos hsave

theorem handleExec_bind (cfg : Settings) (queued : List Command) :
    (Request.exec queued).program (F := F) cfg =
      lockKeys (queued.flatMap fun c => commandKeys c.frame) >>= fun _ => do
        let replies ← runBatch cfg queued
        unlockShards
        return .array replies := rfl

def storeCommand (key : String) : Command :=
  ⟨Env.still, .command [txt "SET", txt key, txt "v"], none⟩

/-- A SAVE has the rewrite lock, and EXEC one of its two guards. -/
theorem exec_waits_for_others_save :
    ∃ (final : ServerConfig Score) (j j' : Fin shardCount)
      (k : Unit → ServerProgram Score Frame),
      (server Score .eachSecond).Reaches (fun _ _ _ _ => True)
        (serving .eachSecond (Node.new .eachSecond)
          fun i => [.exec [storeCommand "k", storeCommand "l"], .single saveCommand][i]?) final ∧
      final.shared.rewriting = some 1 ∧ final.shared.guards j = some 0 ∧
      final.threads 0 = some (.call (.lockShard j') k) ∧
      (lockShard j').WaitsForOthers 0 final.shared ∧
      (server Score .eachSecond).GoesOn final := by
  have hqueued : ∀ c ∈ [storeCommand "k", storeCommand "l"], c.answered = none → c.Queueable := by
    intro c hc _
    rcases List.mem_pair.mp hc with rfl | rfl <;> exact ⟨by decide, by decide⟩
  have hkeys : ([storeCommand "k", storeCommand "l"].flatMap fun c => commandKeys c.frame) =
      [txt "k", txt "l"] := by decide
  have hexec := handleExec_bind (F := Score) .eachSecond [storeCommand "k", storeCommand "l"]
  have hlock : (lockKeys [txt "k", txt "l"] : ServerProgram Score Unit) =
      [shardIndex (txt "k"), shardIndex (txt "l")].forM fun j => perform (.lockShard j) := by
    change lockShards [shardIndex (txt "k"), shardIndex (txt "l")] = _
    rw [lockShards, (List.toFinset_sort (· ≤ ·) (by decide)).mpr (by decide)]
  rw [hkeys, hlock] at hexec
  have hstart : (server Score .eachSecond).Reaches (fun _ _ _ _ => True)
      (serving .eachSecond (Node.new .eachSecond)
        fun i => [.exec [storeCommand "k", storeCommand "l"], .single saveCommand][i]?) _ := .refl
  have hguarded := hstart.runs (i := 0) (congrArg some hexec) (.call none trivial rfl (.refl _ _))
  have hsaving := hguarded.runs (i := 1) (congrArg some (saveCommand_program _))
    (.call none trivial rfl (.refl _ _))
  obtain ⟨hwaits, hgoes⟩ := exec_waits_for_others (e := 0) rfl hqueued (fun _ => rfl) rfl hsaving
  refine ⟨_, shardIndex (txt "k"), shardIndex (txt "l"), _, hsaving, by rfl, by rfl, by rfl,
    hwaits _ _ (by rfl), hgoes (fun i r hr => ?_) fun hsettled => ?_⟩
  · rintro queued rfl
    rcases List.mem_pair.mp (List.mem_of_getElem? hr) with hsame | hsame <;> cases hsame
    exact hqueued
  · obtain ⟨a, ha⟩ := hsettled 0 _ rfl
    cases ha

def queueing (frames : List Frame) : Session :=
  frames.foldl (fun session frame =>
    match interceptForTransaction session frame with
    | .answered _ session => session
    | _ => session) (handleMulti .new).2

/-- A SAVE in the queue asks for the rewrite lock under every guard. -/
theorem exec_waits_for_itself :
    (queueing [saveFrame]).tx = .queuing [saveFrame] false ∧
    ∃ (final : ServerConfig Score) (k : Unit → ServerProgram Score Frame),
      (server Score .eachSecond).Reaches (fun _ _ _ _ => True)
        (serving .eachSecond (Node.new .eachSecond)
          fun i => [Request.exec [saveCommand]][i]?) final ∧
      final.threads 0 = some (.call .lockRewrite k) ∧
      ¬ lockRewrite.WaitsForOthers 0 final.shared := by
  refine ⟨by rfl, ?_⟩
  have hnil : ([saveCommand].flatMap fun c => commandKeys c.frame) = [] := by decide
  have hsave : isNamed "SAVE" saveFrame = true := by decide
  have hread : ([saveCommand].any fun c => (extractWriteCommandName c.frame).isSome) = false := by
    decide
  have hgated : dispatchAndLogGated (F := Score) .eachSecond false saveCommand =
      handleSave .eachSecond Env.still := by
    simp only [dispatchAndLogGated, saveCommand, hsave, if_true]
  have hprogram := handleExec_bind (F := Score) .eachSecond [saveCommand]
  rw [hnil, runBatch, hread, if_neg Bool.false_ne_true, runQueued, hgated] at hprogram
  obtain ⟨rest, k, hprogram, hrest⟩ : ∃ (rest : Unit → ServerProgram Score Frame)
      (k : Unit → ServerProgram Score Frame),
      (Request.exec [saveCommand]).program .eachSecond = lockAllShards >>= rest ∧
        rest () = .call .lockRewrite k := ⟨_, _, hprogram, rfl⟩
  have hlocked : Alone .eachSecond 0 lockAllShards
      (Node.new .eachSecond : Node Score) () _ :=
    lockAllShards_alone fun _ => rfl
  have hrun : (server Score .eachSecond).Runs (fun _ _ _ _ => True) 0
      (lockAllShards >>= rest) _ (rest ()) _ :=
    .bind (hlocked.mono fun _ _ _ _ => trivial) (.refl _ _)
  have hreach := Machine.Reaches.runs .refl (i := 0)
    (hprogram ▸ rfl : (serving .eachSecond (Node.new .eachSecond)
      fun i => [Request.exec [saveCommand]][i]?).threads 0 = some (lockAllShards >>= rest)) hrun
  rw [hrest] at hreach
  refine ⟨_, k, hreach, rfl, fun hwaits => hwaits ⟨0, by decide⟩ ?_⟩
  simp [Node.takeShards]

end RocketMem
