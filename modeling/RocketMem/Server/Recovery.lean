import RocketMem.Protocol.Stream
import RocketMem.Server.Serial

namespace RocketMem

open List

variable {F : Type} [F64 F]

/-- The frames that the grouper releases, dispatched one after another; `none` is a panic. -/
def dispatchEach (env : Env) : List Frame → Store F → Option (Store F)
  | [], st => some st
  | frame :: frames, st =>
    match runEngine env (dispatch env frame) st with
    | (some _, st) => dispatchEach env frames st
    | (none, _) => none

/-- Where a replay has got to: the store, how much of the file is known to be good, and how many
commands have been dispatched. -/
structure Replayed (F : Type) [F64 F] where
  store : Store F
  validLen : Nat
  commands : Nat

/-- The loop of `replay_with_stats`, with `consumedTotal` bytes of the file behind it. Every frame
takes at least one byte, so one more than the buffer's length is enough fuel. -/
def replayLoop (env : Env) : Nat → TransactionGrouper → Bytes → Nat → Replayed F →
    Option (Replayed F)
  | 0, _, _, _, r => some r
  | fuel + 1, grouper, buf, consumedTotal, r =>
    match decode buf with
    | .panic => none
    | .incomplete | .invalid _ => some r
    | .ok frame n =>
      match grouper.feed frame with
      | .error _ => some r
      | .ok (toApply, grouper) =>
        match dispatchEach env toApply r.store with
        | none => none
        | some st =>
          replayLoop env fuel grouper (buf.drop n) (consumedTotal + n)
            { store := st
              validLen := if grouper.isMidTransaction then r.validLen else consumedTotal + n
              commands := r.commands + toApply.length }

/-- The errors that the file accesses of a start-up run into, in the order in which they are made. -/
structure RecoveryFaults where
  manifest : Option Bytes
  snapshot : Option Bytes
  metadata : Option Bytes
  aof : Option Bytes
  openAof : Option Bytes
  setLen : Option Bytes

def RecoveryFaults.none : RecoveryFaults := ⟨.none, .none, .none, .none, .none, .none⟩

structure ReplayStats where
  commands : Nat
  bytes : Nat
  deriving DecidableEq, Repr

section

variable (faults : RecoveryFaults) (env : Env)

/-- `replay_with_stats`: the outcome and the files it leaves; `none` is a panic. -/
def replayWithStats (path : Path) (startAt : Nat) (st : Store F) (disk : Disk) :
    Option (IoResult (ReplayStats × Store F) × Disk) :=
  match faults.aof, disk path with
  | some e, _ => some (.error e, disk)
  | .none, .none => some (.ok (⟨0, 0⟩, st), disk)
  | .none, some f =>
    let start := min startAt f.content.length
    match replayLoop env (f.content.length + 1) .new (f.content.drop start) start ⟨st, start, 0⟩ with
    | .none => .none
    | some r =>
      let stats : ReplayStats := ⟨r.commands, r.validLen - start⟩
      if r.validLen < f.content.length then
        match faults.openAof, faults.setLen with
        | some e, _ | .none, some e => some (.error e, disk)
        | .none, .none =>
          some (.ok (stats, r.store), Function.update disk path (some (f.truncate r.validLen)))
      else some (.ok (stats, r.store), disk)

/-- `recover`: the engine that a start-up finds in its files, and the files it leaves. -/
def recover (cfg : Settings) (disk : Disk) : Option (IoResult (Store F) × Disk) :=
  match faults.manifest, generationOf (disk.read cfg.manifest) with
  | some e, _ | .none, .error e => some (.error e, disk)
  | .none, .ok gen =>
    let replay (startAt : Nat) (st : Store F) : Option (IoResult (Store F) × Disk) :=
      (replayWithStats faults env (cfg.aofFile gen) startAt st disk).map fun r =>
        (r.1.map Prod.snd, r.2)
    match faults.snapshot, disk.read (cfg.snapshotFile gen) with
    | some e, _ => some (.error e, disk)
    | .none, .none => replay 0 .new
    | .none, some bytes =>
      match deserialize env.clock .new bytes with
      | .error _ => replay 0 .new
      | .ok (offset, st) =>
        match faults.metadata, disk.read (cfg.aofFile gen) with
        | some e, _ => some (.error e, disk)
        | .none, .none => some (.ok st, disk)
        | .none, some aof => if aof.length < offset then replay 0 .new else replay offset st

end

section

variable {env : Env}

theorem dispatchEach_append (xs ys : List Frame) (st : Store F) :
    dispatchEach env (xs ++ ys) st = (dispatchEach env xs st).bind (dispatchEach env ys) := by
  induction xs generalizing st with
  | nil => rfl
  | cons x xs ih =>
    simp only [cons_append, dispatchEach]
    split
    · exact ih _
    · rfl

end

def logBytes (frames : List Frame) : Bytes := frames.flatMap (encode .resp2)

theorem logBytes_cons (f : Frame) (fs : List Frame) :
    logBytes (f :: fs) = encode .resp2 f ++ logBytes fs :=
  flatMap_cons

theorem logBytes_append (fs gs : List Frame) : logBytes (fs ++ gs) = logBytes fs ++ logBytes gs :=
  flatMap_append

theorem logBytes_concat (fs : List Frame) (f : Frame) :
    logBytes (fs ++ [f]) = logBytes fs ++ encode .resp2 f := by
  simp [logBytes]

theorem logBytes_take {fs : List Frame} (hfs : ∀ f ∈ fs, Resp2Frame f)
    (hlen : (logBytes fs).length < 2 ^ 63) (k : Nat) :
    ∃ m tail, (logBytes fs).take k = logBytes (fs.take m) ++ tail ∧ decode tail = .incomplete ∧
      ∀ j, (logBytes (fs.take j)).length ≤ k → fs.take j <+: fs.take m := by
  induction fs generalizing k with
  | nil => exact ⟨0, [], by simp [logBytes], rfl, fun j _ => by simp⟩
  | cons f fs ih =>
    rw [logBytes_cons, length_append] at hlen
    by_cases hk : (encode .resp2 f).length ≤ k
    · obtain ⟨m, tail, hcut, htail, hmost⟩ := ih (fun g hg => hfs g (mem_cons_of_mem f hg))
        (by omega) (k - (encode .resp2 f).length)
      refine ⟨m + 1, tail, ?_, htail, fun j hj => ?_⟩
      · rw [logBytes_cons, take_append, take_of_length_le hk, hcut, take_succ_cons,
          logBytes_cons, append_assoc]
      · cases j with
        | zero => exact nil_prefix
        | succ j =>
          rw [take_succ_cons, logBytes_cons, length_append] at hj
          rw [take_succ_cons, take_succ_cons, cons_prefix_cons]
          exact ⟨rfl, hmost j (by omega)⟩
    · have hcut : (logBytes (f :: fs)).take k = (encode .resp2 f).take k := by
        rw [logBytes_cons, take_append_of_le_length (by omega)]
      refine ⟨0, (encode .resp2 f).take k, ?_, ?_, fun j hj => ?_⟩
      · rw [hcut]
        rfl
      · refine decode_torn (hfs f mem_cons_self) (by omega) (take_append_drop k _).symm ?_
        exact fun hnil => hk (drop_eq_nil_iff.mp hnil)
      · cases j with
        | zero => exact nil_prefix
        | succ j =>
          rw [take_succ_cons, logBytes_cons, length_append] at hj
          omega

section

variable (env : Env)

def StopsAt (g : TransactionGrouper) (tail : Bytes) : Prop :=
  decode tail = .incomplete ∨ ∃ frame n e, decode tail = .ok frame n ∧ g.feed frame = .error e

/-- A replay of frames, up to where it has to end, dispatches what the grouper releases of them;
all of them are good when the grouper is between transactions then. -/
theorem replayLoop_readsTo {tail buf : Bytes} {fs : List Frame} (hreads : ReadsTo tail buf fs)
    {g g' : TransactionGrouper} (htail : StopsAt g' tail) {released : List Frame}
    (hfeed : g.feedAll fs = .ok (released, g')) {fuel consumed valid : Nat}
    (hfuel : fs.length < fuel) (hvalid : g.isMidTransaction = false → valid = consumed) :
    ∃ validLen,
      (g'.isMidTransaction = false → validLen = consumed + (buf.length - tail.length)) ∧
      ∀ (st : Store F) (n : Nat),
        replayLoop env fuel g buf consumed ⟨st, valid, n⟩ =
          (dispatchEach env released st).map fun st => ⟨st, validLen, n + released.length⟩ := by
  induction hreads generalizing g released fuel consumed valid with
  | done =>
    obtain ⟨fuel, rfl⟩ : ∃ m, fuel = m + 1 := ⟨fuel - 1, by omega⟩
    cases hfeed
    refine ⟨valid, fun hclosed => by rw [hvalid hclosed]; omega, fun st n => ?_⟩
    rw [replayLoop]
    rcases htail with hwaits | ⟨frame, taken, e, hdecode, hrefused⟩
    · rw [hwaits]
      rfl
    · simp only [hdecode, hrefused]
      rfl
  | @cons buf f taken fs hdecode hreads ih =>
    obtain ⟨fuel, rfl⟩ : ∃ m, fuel = m + 1 := ⟨fuel - 1, by omega⟩
    obtain ⟨toApply, g₁, later, hone, hrest, rfl⟩ := TransactionGrouper.feedAll_cons_iff.mp hfeed
    rw [length_cons] at hfuel
    have hfuel₁ : fs.length < fuel := by omega
    have hvalid₁ : g₁.isMidTransaction = false →
        (if g₁.isMidTransaction then valid else consumed + taken) = consumed + taken :=
      fun hclosed => by rw [hclosed]; rfl
    obtain ⟨validLen, hlen, hloop⟩ := ih hrest hfuel₁ hvalid₁
    refine ⟨validLen, fun hclosed => ?_, fun st n => ?_⟩
    · have htaken : taken ≤ buf.length := (parse_bound _).1 _ _ _ hdecode
      have hleft := hreads.length_le
      rw [length_drop] at hleft
      rw [hlen hclosed, length_drop]
      omega
    · rw [replayLoop, hdecode]
      simp only [hone]
      rw [dispatchEach_append]
      cases dispatchEach env toApply st with
      | none => rfl
      | some st' =>
        simp only [Option.bind_some, hloop, length_append, Nat.add_assoc]

end

variable (env : Env) {disk : Disk} {path : Path} {f : File}

theorem length_le_logBytes (fs : List Frame) : fs.length ≤ (logBytes fs).length := by
  induction fs with
  | nil => exact Nat.le_refl 0
  | cons f fs ih =>
    have hpos := encode_pos f
    rw [logBytes_cons, length_append, length_cons]
    omega

theorem replayWithStats_encoded (hf : disk path = some f) {front : Bytes} {fs : List Frame}
    {tail : Bytes} (hcontent : f.content = front ++ (logBytes fs ++ tail))
    (hfs : ∀ f ∈ fs, Resp2Frame f) {g : TransactionGrouper} (htail : StopsAt g tail)
    {released : List Frame} (hfeed : TransactionGrouper.new.feedAll fs = .ok (released, g)) :
    ∃ validLen,
      (g.isMidTransaction = false → validLen = front.length + (logBytes fs).length) ∧
      ∀ st : Store F, replayWithStats .none env path front.length st disk =
        (dispatchEach env released st).map fun st =>
          (.ok (⟨released.length, validLen - front.length⟩, st),
            if validLen < f.content.length then
              Function.update disk path (some (f.truncate validLen)) else disk) := by
  have hle : front.length ≤ f.content.length := by
    rw [hcontent, length_append]
    omega
  have hfuel : fs.length < f.content.length + 1 := by
    have hfew := length_le_logBytes fs
    rw [hcontent, length_append, length_append]
    omega
  have hreads : ReadsTo tail (logBytes fs ++ tail) fs := .encode hfs tail
  obtain ⟨validLen, hvalid, hloop⟩ := replayLoop_readsTo (F := F) env hreads htail hfeed hfuel
    fun _ : TransactionGrouper.new.isMidTransaction = false => (rfl : front.length = front.length)
  rw [length_append, Nat.add_sub_cancel] at hvalid
  refine ⟨validLen, hvalid, fun st => ?_⟩
  have hdrop : f.content.drop front.length = logBytes fs ++ tail := by
    rw [hcontent, drop_left]
  simp only [replayWithStats, RecoveryFaults.none, hf, min_eq_left hle, hdrop, hloop]
  cases dispatchEach env released st with
  | none => rfl
  | some st' =>
    simp only [Option.map_some, Nat.zero_add]
    split <;> rfl

end RocketMem
