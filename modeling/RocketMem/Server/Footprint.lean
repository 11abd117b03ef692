import RocketMem.Server.WriteProof

namespace RocketMem

open Dispatch

variable {F : Type} [F64 F] {env : Env}

/-- What a program changes lies within `keys`, and what it answers and makes of them follows from
what clients see of them. -/
structure TouchesOnly (env : Env) (keys : List Bytes) (p : EngineProgram F Frame) : Prop where
  frame : ∀ (st : Store F) (k : Bytes), k ∉ keys →
    (runEngine env p st).2.live env.clock k = st.live env.clock k
  reply : ∀ st st' : Store F, (∀ k ∈ keys, st.live env.clock k = st'.live env.clock k) →
    (runEngine env p st).1 = (runEngine env p st').1
  effect : ∀ st st' : Store F, (∀ k ∈ keys, st.live env.clock k = st'.live env.clock k) →
    ∀ k ∈ keys, (runEngine env p st).2.live env.clock k = (runEngine env p st').2.live env.clock k

theorem TouchesOnly.of_calls {keys : List Bytes} {p : EngineProgram F Frame}
    (hp : p.Calls (EngineOp.On (· ∈ keys))) : TouchesOnly env keys p where
  frame st k hk := by
    rw [(runEngine_live hp env st).2]
    exact runKeyspace_frame hp env.clock _ hk
  reply st st' h := by
    rw [(runEngine_live hp env st).1, (runEngine_live hp env st').1]
    exact (runKeyspace_congr hp env.clock h).1
  effect st st' h := by
    rw [(runEngine_live hp env st).2, (runEngine_live hp env st').2]
    exact (runKeyspace_congr hp env.clock h).2

def frameCommand : Frame → Option CommandName
  | .array (.bulk raw :: _) => commandName raw
  | _ => none

/-- `KEYS`, `SCAN`, `RANDOMKEY` and `DBSIZE`. -/
def Frame.isWide (frame : Frame) : Bool := (frameCommand frame).any Dispatch.isWide

/-- The key of an `SSCAN` that `dispatch` carries out: its cursor and its options can be read. -/
def sscanKey (frame : Frame) : Option Bytes :=
  match frameToArgs frame with
  | .ok (raw :: key :: cursor :: options) =>
    if commandName raw = some .sscan ∧ (parseU64 cursor).isSome ∧
        (ScanOptions.parse false options ⟨none, none⟩).isOk then some key
    else none
  | _ => none

theorem frameCommand_command (raw : Bytes) (args : List Bytes) :
    frameCommand (.command (raw :: args)) = commandName raw := rfl

theorem sscan_rejected {raw : Bytes} {args : List Bytes} (hraw : commandName raw = some .sscan)
    (h : sscanKey (.command (raw :: args)) = none) :
    ∃ reply, (sscan env args : EngineProgram F Frame) = pure reply := by
  rw [sscanKey, frameToArgs_command] at h
  unfold sscan
  split
  · next key cursor options =>
    simp only [hraw, true_and] at h
    by_cases hcursor : (parseU64 cursor).isNone
    · exact ⟨_, if_pos hcursor⟩
    · rw [if_neg hcursor]
      cases hoptions : ScanOptions.parse false options ⟨none, none⟩ with
      | error e => exact ⟨e, rfl⟩
      | ok opts =>
        have hsome : (parseU64 cursor).isSome := by
          rwa [Option.isNone_iff_eq_none, ← ne_eq, ← Option.isSome_iff_ne_none] at hcursor
        simp [hsome, hoptions, Except.isOk, Except.toBool] at h
  · exact ⟨_, rfl⟩

theorem read_touches {raw : Bytes} {c : CommandName} {args : List Bytes}
    (hname : commandName raw = some c) (hw : c.isWrite = false) (hwide : isWide c = false)
    (hsscan : sscanKey (.command (raw :: args)) = none) :
    (arm env c args : EngineProgram F Frame).Calls
      (EngineOp.On (· ∈ (keySpec c).select args)) := by
  have hreads : ReadsOf (if c = .sscan then args.take 1 else (keySpec c).select args)
      (arm env c args : EngineProgram F Frame) := arm_readsOf hw hwide args
  by_cases hc : c = .sscan
  · subst hc
    obtain ⟨reply, hreply⟩ : ∃ reply, (sscan env args : EngineProgram F Frame) =
        pure reply := sscan_rejected hname hsscan
    change (sscan env args).Calls _
    rw [hreply]
    exact .ret reply
  · rw [if_neg hc] at hreads
    exact hreads.on

theorem dispatch_touches (hmem : env.maxmemory = none) {frame : Frame}
    (hwide : frame.isWide = false) (hsscan : sscanKey frame = none) :
    (dispatch env frame : EngineProgram F Frame).Calls (EngineOp.On (· ∈ commandKeys frame)) := by
  rcases dispatch_cases (F := F) frame with ⟨raw, c, args, rfl, hname⟩ | ⟨reply, hreply⟩
  · rw [dispatch_command hname, commandKeys_command hname]
    rw [Frame.isWide, frameCommand_command, hname] at hwide
    cases hw : c.isWrite with
    | true => exact (arm_atomic hmem hw args).touches
    | false => exact read_touches hname hw hwide hsscan
  · rw [hreply env]
    exact .ret reply

variable {key cursor : Bytes} {options : List Bytes} {opts : ScanOptions}
  (hcursor : (parseU64 cursor).isSome)
  (hoptions : ScanOptions.parse false options ⟨none, none⟩ = .ok opts)

include hcursor hoptions

theorem sscan_accepted : (sscan env (key :: cursor :: options) : EngineProgram F Frame) =
    replyWith (fun s => .array [.bulk (txt "0"), membersReply env opts.matches s]) <$>
      smembers key := by
  have hnone : ¬ (parseU64 cursor).isNone := by
    rwa [Option.isNone_iff_eq_none, ← ne_eq, ← Option.isSome_iff_ne_none]
  rw [sscan, if_neg hnone, hoptions]

theorem runKeyspace_sscan_absent {ks : Keyspace F} (hks : ks key = none) :
    (runKeyspace env.clock (sscan env (key :: cursor :: options)) ks).1 =
      some (.array [.bulk (txt "0"), membersReply env opts.matches ∅]) := by
  rw [sscan_accepted hcursor hoptions, runKeyspace_map, smembers, getSet, Engine.get,
    runKeyspace_perform_bind, hks]
  rfl

theorem runKeyspace_sscan_string {ks : Keyspace F} {text : Bytes} {deadline : Option Nat}
    (hks : ks key = some (.string text, deadline)) :
    (runKeyspace env.clock (sscan env (key :: cursor :: options)) ks).1 =
      some (engineErrorToFrame .wrongType) := by
  rw [sscan_accepted hcursor hoptions, runKeyspace_map, smembers, getSet, Engine.get,
    runKeyspace_perform_bind, hks]
  rfl

omit hcursor hoptions

theorem frame_of_sscanKey {frame : Frame} {key : Bytes} (h : sscanKey frame = some key) :
    ∃ raw cursor options opts, frame = .command (raw :: key :: cursor :: options) ∧
      commandName raw = some .sscan ∧ (parseU64 cursor).isSome ∧
        ScanOptions.parse false options ⟨none, none⟩ = .ok opts := by
  unfold sscanKey at h
  split at h
  · next raw key' cursor options hargs =>
    split at h
    · next hc =>
      obtain rfl := Option.some.inj h
      obtain ⟨hname, hcursor, hoptions⟩ := hc
      cases hparse : ScanOptions.parse false options ⟨none, none⟩ with
      | error e => rw [hparse] at hoptions; cases hoptions
      | ok opts => exact ⟨raw, cursor, options, opts, frameToArgs_ok hargs, hname, hcursor, hparse⟩
    · cases h
  · cases h

theorem sscan_reads_undeclared {frame : Frame} {key : Bytes} (h : sscanKey frame = some key) :
    ¬ TouchesOnly (F := F) env (commandKeys frame) (dispatch env frame) := by
  obtain ⟨raw, cursor, options, opts, rfl, hname, hcursor, hoptions⟩ := frame_of_sscanKey h
  intro htouches
  let st : Store F := (KeyOp.set (.string (txt "v"))).exec env.clock.mono key Store.new |>.2
  have hst : st.live env.clock key = some (.string (txt "v"), none) := by
    rw [(KeyOp.exec_live env.clock key Store.new (.set (.string (txt "v")))).2]
    exact Function.update_self _ _ _
  have hreads : ReadsOf [key] (sscan env (key :: cursor :: options) :
      EngineProgram F Frame) := sscan_reads (key :: cursor :: options)
  have hsame := htouches.reply Store.new st
  have harm : (dispatch env (.command (raw :: key :: cursor :: options)) : EngineProgram F Frame) =
      sscan env (key :: cursor :: options) := dispatch_command hname _
  rw [commandKeys_command hname, harm] at hsame
  rw [(runEngine_live hreads.on env Store.new).1, (runEngine_live hreads.on env st).1,
    runKeyspace_sscan_absent hcursor hoptions rfl,
    runKeyspace_sscan_string hcursor hoptions hst] at hsame
  have hnil (k : Bytes) (hk : k ∈ (keySpec .sscan).select (key :: cursor :: options)) :
      (Store.new : Store F).live env.clock k = st.live env.clock k := absurd hk List.not_mem_nil
  cases hsame hnil

/-- Of the commands that do not walk the keyspace, exactly `SSCAN` reads beyond its declared
keys. -/
theorem touchesOnly_iff (hmem : env.maxmemory = none) (frame : Frame)
    (hwide : frame.isWide = false) :
    TouchesOnly (F := F) env (commandKeys frame) (dispatch env frame) ↔ sscanKey frame = none := by
  constructor
  · intro htouches
    cases hkey : sscanKey frame with
    | none => rfl
    | some key => exact absurd htouches (sscan_reads_undeclared hkey)
  · intro hsscan
    exact .of_calls (dispatch_touches hmem hwide hsscan)

def sscanFrame : Frame := .command [txt "SSCAN", txt "s", txt "0"]

theorem touchesOnly_get :
    TouchesOnly (F := Score) Env.still [txt "k"]
      (dispatch Env.still (.command [txt "GET", txt "k"])) :=
  (touchesOnly_iff rfl (.command [txt "GET", txt "k"]) (by decide)).mpr (by decide)

theorem sscan_not_touchesOnly :
    sscanFrame.isWide = false ∧ commandKeys sscanFrame = [] ∧
      ¬ TouchesOnly (F := Score) Env.still (commandKeys sscanFrame)
        (dispatch Env.still sscanFrame) :=
  ⟨by decide, by decide, sscan_reads_undeclared (by decide : sscanKey sscanFrame = some (txt "s"))⟩

end RocketMem
