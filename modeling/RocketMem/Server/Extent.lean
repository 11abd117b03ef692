import RocketMem.Engine.Eviction
import RocketMem.Server.Conduct
import RocketMem.Server.Footprint

namespace RocketMem

open List Program EngineOp

variable {F : Type} [F64 F] {env : Env} {R : Type}

abbrev ActsWithin (env : Env) {α : Type} (keys : List Bytes) (p : EngineProgram F α) : Prop :=
  Program.Beside (EngineOp.On (· ∈ keys)) (Engine.maybeEvict env) p

def EngineOp.Creates (K : Bytes → Prop) : EngineOp F → Prop
  | key k (.set _) => K k
  | _ => True

theorem EngineOp.IsRead.creates {K : Bytes → Prop} {o : EngineOp F} (h : o.IsRead) :
    o.Creates K := by
  cases o with
  | key k op =>
    cases op with
    | set value => exact h.elim
    | _ => trivial
  | _ => trivial

theorem ActsWithin.creates {α : Type} {keys : List Bytes} {p : EngineProgram F α}
    (hp : ActsWithin env keys p) : p.Calls (EngineOp.Creates (· ∈ keys)) := by
  refine hp.calls (fun o ho => ?_) ?_
  · cases o with
    | key k op =>
      cases op with
      | set value => exact ho
      | _ => trivial
    | _ => trivial
  · refine maybeEvict_evicts.mono fun o ho => ?_
    rcases ho with ho | ⟨k, rfl⟩
    · exact ho.creates
    · trivial

theorem Dispatch.arm_within {c : CommandName} (hw : c.isWrite = true) (args : List Bytes) :
    ActsWithin env ((keySpec c).select args) (arm env c args : EngineProgram F Frame) := by
  have harm : Conducts (fun _ => True) env ((keySpec c).select args)
      (arm env c args : EngineProgram F Frame) := arm_conducts (fun _ _ => trivial) hw args
  exact harm.beside yields_any fun _ ho => ho.1

section

def KeyOp.sampleAfter (sample : List Bytes) : KeyOp F → List Bytes
  | del => []
  | _ => sample

/-- The keys that a run addresses. A round of eviction samples candidates, looks at one of them and
deletes it; those two steps are the engine's and not the command's. -/
def addressed : List ((o : EngineOp F) × o.Ret) → (sample : List Bytes) → List Bytes
  | [], _ => []
  | ⟨.key k op, _⟩ :: rest, sample =>
    if k ∈ sample then addressed rest (op.sampleAfter sample) else k :: addressed rest sample
  | ⟨.sampleRecency _ _, found⟩ :: rest, sample => addressed rest (sample ++ found.map Prod.fst)
  | _ :: rest, sample => addressed rest sample

def keysTouched (env : Env) {α : Type} (p : EngineProgram F α) (st : Store F) : List Bytes :=
  addressed (p.trace (exec env) st) []

variable {st : Store F} {events : List ((o : EngineOp F) × o.Ret)} {sample : List Bytes}

theorem overShards_looks {α : Type} (env : Env) (st : Store F)
    {f : Fin shardCount → EngineProgram F α}
    {look : Fin shardCount → α} {event : Fin shardCount → (o : EngineOp F) × o.Ret}
    (hrun : ∀ i, (f i).run (exec env) st = (some (look i), st))
    (htrace : ∀ i, (f i).trace (exec env) st = [event i]) :
    (Engine.overShards f).run (exec env) st =
        (some ((List.finRange shardCount).map look), st) ∧
      (Engine.overShards f).trace (exec env) st = (List.finRange shardCount).map event := by
  unfold Engine.overShards
  induction List.finRange shardCount with
  | nil => exact ⟨rfl, rfl⟩
  | cons i is ih =>
    rw [mapM_cons]
    constructor
    · rw [run_bind, hrun i]
      dsimp only
      rw [run_bind, ih.1]
      rfl
    · rw [trace_bind, htrace i, hrun i]
      dsimp only
      rw [trace_bind, ih.2, ih.1]
      exact congrArg (event i :: ·) (append_nil _)

theorem memoryUsed_looks (env : Env) (st : Store F) :
    ∃ used, (Engine.memoryUsed : EngineProgram F UInt64).run (exec env) st =
        (some used, st) ∧
      ∀ events sample, addressed ((Engine.memoryUsed : EngineProgram F UInt64).trace
        (exec env) st ++ events) sample = addressed events sample := by
  obtain ⟨hrun, htrace⟩ := overShards_looks env st
    (f := fun i => Program.perform (shardBytesUsed i)) (fun _ => rfl) fun _ => rfl
  refine ⟨_, by rw [Engine.memoryUsed, run_bind, hrun]; rfl, fun events sample => ?_⟩
  rw [Engine.memoryUsed, trace_bind, htrace, hrun]
  dsimp only
  rw [pure_eq, Program.trace, append_nil]
  induction List.finRange shardCount with
  | nil => rfl
  | cons i is ih => exact ih

theorem sampleForEviction_looks (env : Env) (st : Store F) (n : Nat) :
    ∃ found, (Engine.sampleForEviction n : EngineProgram F _).run (exec env) st =
        (some found, st) ∧
      ∀ events, addressed ((Engine.sampleForEviction n : EngineProgram F _).trace
        (exec env) st ++ events) [] = addressed events (found.map Prod.fst) := by
  obtain ⟨hrun, htrace⟩ := overShards_looks env st
    (f := fun i => Program.perform (sampleRecency i n)) (fun _ => rfl) fun _ => rfl
  refine ⟨_, by rw [Engine.sampleForEviction, run_bind, hrun]; rfl, fun events => ?_⟩
  rw [Engine.sampleForEviction, trace_bind, htrace, hrun]
  dsimp only
  rw [pure_eq, Program.trace, append_nil]
  have hsample (is : List (Fin shardCount)) (sample : List Bytes) :
      addressed ((is.map fun i => ⟨sampleRecency i n,
          ((sampleRecency i n).exec env st).1⟩) ++ events) sample =
        addressed events (sample ++ (is.map fun i =>
          ((sampleRecency (F := F) i n).exec env st).1).flatten.map Prod.fst) := by
    induction is generalizing sample with
    | nil => simp
    | cons i is ih =>
      rw [map_cons, cons_append, addressed, ih]
      simp
  exact hsample _ []

theorem oldest_mem {found : List (Bytes × Nat)} {key : Bytes} (h : Engine.oldest found = some key) :
    key ∈ found.map Prod.fst := by
  obtain ⟨tick, hmem, -⟩ := oldest_least h
  exact mem_map_of_mem hmem

theorem evict_addressed (env : Env) (ceiling attempts : Nat) (st : Store F) :
    ∃ st', (Engine.evict ceiling attempts : EngineProgram F Unit).run (EngineOp.exec env) st =
        (some (), st') ∧
      ∀ events, addressed ((Engine.evict ceiling attempts : EngineProgram F Unit).trace
        (EngineOp.exec env) st ++ events) [] = addressed events [] := by
  induction attempts generalizing st with
  | zero => exact ⟨st, rfl, fun _ => rfl⟩
  | succ attempts ih =>
    obtain ⟨used, hused, husedTrace⟩ := memoryUsed_looks env st
    obtain ⟨found, hfound, hfoundTrace⟩ := sampleForEviction_looks env st 5
    unfold Engine.evict
    simp only [run_bind, trace_bind, hused, append_assoc, husedTrace]
    split
    · exact ⟨st, rfl, fun _ => rfl⟩
    · simp only [run_bind, trace_bind, hfound, append_assoc, hfoundTrace]
      split
      · next hnone =>
        have hnil : found = [] := by
          cases found with
          | nil => rfl
          | cons c cs => cases hnone
        subst hnil
        exact ⟨st, rfl, fun _ => rfl⟩
      · next key hkey =>
        have hmem := oldest_mem hkey
        obtain ⟨st', hrest, hrestTrace⟩ :=
          ih ((EngineOp.key key .del).exec env ((EngineOp.key key .withRef).exec env st).2).2
        refine ⟨st', hrest, fun events => ?_⟩
        simp only [Engine.perform, perform_bind, Program.trace, cons_append, addressed,
          KeyOp.sampleAfter, hmem, if_true]
        exact hrestTrace events

theorem ActsWithin.keysTouched {α : Type} {keys : List Bytes} {p : EngineProgram F α}
    (hp : ActsWithin env keys p) (st : Store F) : keysTouched env p st ⊆ keys := by
  have hevict (st : Store F) : ∃ st', (Engine.maybeEvict env : EngineProgram F Unit).run
      (exec env) st = (some (), st') ∧ ∀ events, addressed ((Engine.maybeEvict env :
        EngineProgram F Unit).trace (exec env) st ++ events) [] = addressed events [] := by
    unfold Engine.maybeEvict
    split
    · exact ⟨st, rfl, fun _ => rfl⟩
    · exact evict_addressed env _ _ st
  unfold RocketMem.keysTouched
  induction hp generalizing st with
  | ret a => exact nil_subset _
  | halt => exact nil_subset _
  | @call o k ho _ ih =>
    cases o with
    | key key op =>
      have hkey : key ∈ keys := ho
      rw [Program.trace, addressed, if_neg not_mem_nil]
      exact cons_subset.mpr ⟨hkey, ih _ _⟩
    | _ => exact ho.elim
  | aside _ ih =>
    obtain ⟨st', hrun, htrace⟩ := hevict st
    rw [trace_bind, hrun, htrace]
    exact ih st'

end

theorem dispatch_within {frame : Frame} (hwide : frame.isWide = false)
    (hsscan : sscanKey frame = none) :
    ActsWithin env (commandKeys frame) (dispatch env frame : EngineProgram F Frame) := by
  rcases dispatch_cases (F := F) frame with ⟨raw, c, args, rfl, hname⟩ | ⟨reply, hreply⟩
  · rw [dispatch_command hname, commandKeys_command hname]
    rw [Frame.isWide, frameCommand_command, hname] at hwide
    cases hw : c.isWrite with
    | true => exact Dispatch.arm_within hw args
    | false => exact (read_touches hname hw hwide hsscan).beside _
  · rw [hreply env]
    exact .ret reply

theorem dispatch_creates (env : Env) (frame : Frame) :
    (dispatch env frame : EngineProgram F Frame).Calls
      (EngineOp.Creates (· ∈ commandKeys frame)) := by
  rcases dispatch_cases (F := F) frame with ⟨raw, c, args, rfl, hname⟩ | ⟨reply, hreply⟩
  · rw [dispatch_command hname, commandKeys_command hname]
    cases hw : c.isWrite with
    | true => exact (Dispatch.arm_within hw args).creates
    | false => exact Program.Calls.mono (fun _ ho => ho.creates) (Dispatch.arm_reads hw args)
  · rw [hreply env]
    exact .ret reply

end RocketMem
