import RocketMem.Engine.LockSections
import RocketMem.Server.Conduct
import RocketMem.Server.Reachable

namespace RocketMem

open Program.Disturbed

variable {F : Type} [F64 F] {env : Env}

/-- An operation whose result is about what clients see: not about the bytes or the ticks of the
entries. -/
def EngineOp.IsVisible : EngineOp F → Prop
  | key _ _ | shardKeys _ | shardCounts _ => True
  | _ => False

theorem EngineOp.On.isVisible {K : Bytes → Prop} {o : EngineOp F} (h : o.On K) : o.IsVisible := by
  cases o with
  | key k op => trivial
  | _ => exact h.elim

theorem keys_visible : (Engine.keys : EngineProgram F _).Calls EngineOp.IsVisible :=
  (overShards_calls fun i => .perform (o := EngineOp.shardKeys i) trivial).bind fun _ => .ret _

theorem ReadsOf.visible {α : Type} {keys : List Bytes} {p : EngineProgram F α}
    (h : ReadsOf keys p) : p.Calls EngineOp.IsVisible :=
  Program.Calls.mono (fun _ ho => ho.2.isVisible) h

namespace Dispatch

theorem filterByType_visible (typeFilter : Option Bytes) (keys : List Bytes) :
    (filterByType typeFilter keys : EngineProgram F _).Calls EngineOp.IsVisible := by
  induction keys with
  | nil => exact .ret _
  | cons k keys ih =>
    cases typeFilter with
    | none => exact ih.bind fun _ => .ret _
    | some t => exact ((keyType_reads k).visible.map _).bind fun _ => ih.bind fun _ => .ret _

theorem scan_visible (args : List Bytes) :
    (scan args : EngineProgram F Frame).Calls EngineOp.IsVisible := by
  have hscan (cursor : Nat) :
      (Engine.scan cursor : EngineProgram F _).Calls EngineOp.IsVisible := by
    unfold Engine.scan
    split
    · exact Program.Calls.bind (.perform trivial) fun _ => .ret _
    · exact .ret _
  unfold scan
  split
  · split
    · exact .ret _
    · split
      · exact .ret _
      · exact (hscan _).bind fun r => (filterByType_visible _ _).bind fun _ => .ret _
  · exact .ret _

theorem arm_visible (hmem : env.maxmemory = none) (c : CommandName) (args : List Bytes) :
    (arm env c args : EngineProgram F Frame).Calls EngineOp.IsVisible := by
  cases hw : c.isWrite with
  | true =>
    have hconducts : Conducts (fun _ => True) env ((keySpec c).select args)
        (arm env c args : EngineProgram F Frame) := arm_conducts (fun _ _ => trivial) hw args
    have hevict : (Engine.maybeEvict env : EngineProgram F Unit).Calls EngineOp.IsVisible := by
      rw [Engine.maybeEvict, hmem]
      exact .ret _
    exact (hconducts.beside EngineOp.yields_any fun _ ho => ho.1.isVisible).calls
      (fun _ ho => ho) hevict
  | false =>
    cases hwide : isWide c with
    | false => exact (arm_readsOf hw hwide args).visible
    | true =>
      cases c with
      | keys =>
        cases args with
        | nil => exact .ret _
        | cons pattern rest => exact keys_visible.map _
      | scan => exact scan_visible args
      | randomkey => exact (keys_visible.bind fun _ => .ret _).map _
      | dbsize =>
        have hcounts : (Engine.keyCounts : EngineProgram F _).Calls EngineOp.IsVisible :=
          (overShards_calls fun i => .perform (o := EngineOp.shardCounts i) trivial).bind
            fun _ => .ret _
        exact hcounts.map _
      | _ => cases hwide

end Dispatch

theorem dispatch_visible (hmem : env.maxmemory = none) (frame : Frame) :
    (dispatch env frame : EngineProgram F Frame).Calls EngineOp.IsVisible := by
  rcases dispatch_cases (F := F) frame with ⟨raw, c, args, rfl, hname⟩ | ⟨reply, hreply⟩
  · rw [dispatch_command hname]
    exact Dispatch.arm_visible hmem c args
  · rw [hreply env]
    exact .ret reply

section

variable {c : Clock}

theorem Shard.mem_keys_iff (c : Clock) (s : Shard F) (k : Bytes) :
    k ∈ s.keys c.mono ↔ (s.slot c k).isSome = true := by
  unfold Shard.keys
  rw [Finmap.mem_keys, ← Finmap.lookup_isSome, lookup_live, Shard.slot]
  cases s.map.lookup k with
  | none => rfl
  | some e =>
    by_cases he : e.isExpired c.mono = true
    · simp [he, Entry.slot]
    · simp [he, Entry.slot]

theorem Store.mem_shard_keys (c : Clock) (st : Store F) (i : Fin shardCount) (k : Bytes) :
    k ∈ (st.shards i).keys c.mono ↔ shardIndex k = i ∧ (st.live c k).isSome = true := by
  constructor
  · intro hk
    have hmem : k ∈ (st.shards i).map := by
      unfold Shard.keys Shard.live at hk
      exact HashMap.mem_of_mem_retain (Finmap.mem_keys.mp hk)
    have hi := st.routed i k hmem
    refine ⟨hi, ?_⟩
    subst hi
    exact (Shard.mem_keys_iff c _ k).mp hk
  · rintro ⟨rfl, hk⟩
    exact (Shard.mem_keys_iff c _ k).mpr hk

theorem Shard.mem_dated_iff (c : Clock) (s : Shard F) (k : Bytes) :
    k ∈ (HashMap.retain (fun _ e => e.expiresAt.isSome) (s.live c.mono)).keys ↔
      ((s.slot c k).bind Prod.snd).isSome = true := by
  rw [Finmap.mem_keys, ← Finmap.lookup_isSome, HashMap.lookup_retain, lookup_live, Shard.slot]
  cases s.map.lookup k with
  | none => rfl
  | some e =>
    by_cases he : e.isExpired c.mono = true
    · simp [he, Entry.slot]
    · cases hd : e.expiresAt <;> simp [he, Entry.slot, Option.filter, hd]

variable {st st' : Store F} (hlive : st.live c = st'.live c)

include hlive

theorem Store.keys_congr (i : Fin shardCount) :
    (st.shards i).keys c.mono = (st'.shards i).keys c.mono := by
  ext k
  rw [st.mem_shard_keys c, st'.mem_shard_keys c, hlive]

theorem Store.counts_congr (i : Fin shardCount) :
    (st.shards i).counts c.mono = (st'.shards i).counts c.mono := by
  have hdated : (HashMap.retain (fun _ e => e.expiresAt.isSome) ((st.shards i).live c.mono)).keys =
      (HashMap.retain (fun _ e => e.expiresAt.isSome) ((st'.shards i).live c.mono)).keys := by
    ext k
    rw [Shard.mem_dated_iff, Shard.mem_dated_iff]
    by_cases hi : shardIndex k = i
    · subst hi
      have hslot : (st.shards (shardIndex k)).slot c k = (st'.shards (shardIndex k)).slot c k :=
        congrFun hlive k
      rw [hslot]
    · have habsent (s : Store F) : (s.shards i).slot c k = none := by
        refine Shard.slot_of_lookup_none c _ k ?_
        refine Finmap.lookup_eq_none.mpr fun hk => hi (s.routed i k hk)
      rw [habsent, habsent]
  exact Prod.ext (congrArg Finset.card (Store.keys_congr hlive i)) (congrArg Finset.card hdated)

omit hlive in
theorem EngineOp.IsVisible.exec_congr {o : EngineOp F} (h : o.IsVisible) (env : Env)
    (hlive : st.live env.clock = st'.live env.clock) :
    (o.exec env st).1 = (o.exec env st').1 ∧
      (o.exec env st).2.live env.clock = (o.exec env st').2.live env.clock := by
  cases o with
  | key k op =>
    obtain ⟨hr, hnext⟩ := KeyOp.exec_live env.clock k st op
    obtain ⟨hr', hnext'⟩ := KeyOp.exec_live env.clock k st' op
    rw [hlive] at hr hnext
    exact ⟨hr.trans hr'.symm, hnext.trans hnext'.symm⟩
  | shardKeys i => exact ⟨congrArg env.iter (Store.keys_congr hlive i), hlive⟩
  | shardCounts i => exact ⟨Store.counts_congr hlive i, hlive⟩
  | _ => exact h.elim

end

def Store.Swept (c : Clock) (st st' : Store F) : Prop := ∃ j, st' = st.activeExpireCycle c.mono j

def SweptCommand (env : Env) (frame : Frame) (st : Store F) (reply : Option Frame)
    (st' : Store F) : Prop :=
  Program.Disturbed (LockOp.exec env) (Store.Swept env.clock) (dispatch env frame).sections st reply
    st'

theorem sweptCommand_run (env : Env) (frame : Frame) (st : Store F) :
    SweptCommand env frame st (runEngine env (dispatch env frame) st).1
      (runEngine env (dispatch env frame) st).2 := by
  rw [← EngineProgram.run_sections]
  exact .of_run _ _

theorem Store.Swept.live {c : Clock} {st st' : Store F} (h : st.Swept c st') :
    st'.live c = st.live c := by
  obtain ⟨j, rfl⟩ := h
  exact st.live_activeExpireCycle c j

theorem swept_unseen {c : Clock} (s s' t : Store F) (h : s.Swept c s')
    (hlive : s.live c = t.live c) : s'.live c = t.live c := h.live.trans hlive

theorem getSections_swept (env : Env) {k : Bytes} {s s' t : Store F} {r : Option (Option (Value F))}
    (hlive : s.live env.clock = t.live env.clock)
    (h : Program.Disturbed (LockOp.exec env) (Store.Swept env.clock) (LockProgram.get k) s r s') :
    r = some (t.get env.clock.mono k).1 ∧
      s'.live env.clock = (t.get env.clock.mono k).2.live env.clock := by
  obtain ⟨hget, hnext⟩ := KeyOp.exec_live env.clock k t .get
  have hgot : (t.get env.clock.mono k).1 = (t.live env.clock k).map Prod.fst := hget
  have hkept : (t.get env.clock.mono k).2.live env.clock = t.live env.clock :=
    hnext.trans (Function.update_eq_self k _)
  rw [hgot, hkept]
  obtain ⟨s₁, hs₁, hrest⟩ := call_inv h
  have hlive₁ : s₁.live env.clock = t.live env.clock := unseen swept_unseen hs₁ hlive
  have hread : (s₁.getRead env.clock.mono k).2.live env.clock = t.live env.clock :=
    (s₁.live_getRead k env.clock).trans hlive₁
  have hfound := s₁.getRead_eq_live k env.clock
  rw [hlive₁] at hfound
  have habsent (hnot : ∀ v, (s₁.getRead env.clock.mono k).1 ≠ .live v) :
      (t.live env.clock k).map Prod.fst = none := by
    cases hslot : (t.live env.clock k).map Prod.fst with
    | none => rfl
    | some v => exact (hnot v ((hfound v).mpr hslot)).elim
  change Program.Disturbed _ _ (LockProgram.afterRead k (s₁.getRead env.clock.mono k).1)
    (s₁.getRead env.clock.mono k).2 r s' at hrest
  cases hcase : (s₁.getRead env.clock.mono k).1 with
  | live v =>
    rw [hcase] at hrest
    obtain ⟨hr, hs'⟩ := ret_inv hrest
    rw [(hfound v).mp hcase]
    exact ⟨hr, unseen swept_unseen hs' hread⟩
  | missing =>
    rw [hcase] at hrest
    obtain ⟨hr, hs'⟩ := ret_inv hrest
    rw [habsent fun v hv => by rw [hcase] at hv; cases hv]
    exact ⟨hr, unseen swept_unseen hs' hread⟩
  | expired =>
    rw [hcase] at hrest
    obtain ⟨s₂, hs₂, hlast⟩ := call_inv hrest
    obtain ⟨hr, hs'⟩ := ret_inv hlast
    have hlive₂ := unseen swept_unseen hs₂ hread
    rw [habsent fun v hv => by rw [hcase] at hv; cases hv]
    refine ⟨hr, unseen swept_unseen hs' ?_⟩
    exact (s₂.live_getWrite k env.clock).trans hlive₂

theorem EngineOp.IsVisible.sections_swept {o : EngineOp F} (ho : o.IsVisible) (env : Env)
    (s t : Store F) (r : Option o.Ret) (s' : Store F) (hlive : s.live env.clock = t.live env.clock)
    (h : Program.Disturbed (LockOp.exec env) (Store.Swept env.clock) o.sections s r s') :
    r = some (o.exec env t).1 ∧ s'.live env.clock = (o.exec env t).2.live env.clock := by
  have hone (hsections : o.sections = Program.perform (LockOp.access o)) :
      r = some (o.exec env t).1 ∧ s'.live env.clock = (o.exec env t).2.live env.clock := by
    rw [hsections] at h
    obtain ⟨s₁, hs₁, hrest⟩ := call_inv h
    obtain ⟨hr, hs'⟩ := ret_inv hrest
    have hlive₁ := unseen swept_unseen hs₁ hlive
    obtain ⟨hsame, hnext⟩ := ho.exec_congr env hlive₁
    exact ⟨hr.trans (congrArg some hsame), unseen swept_unseen hs' hnext⟩
  cases o with
  | key k op =>
    cases op with
    | get => exact getSections_swept env hlive h
    | _ => exact hone rfl
  | _ => exact hone rfl

theorem sweptCommand_live (hmem : env.maxmemory = none) {frame : Frame} {st st' st₀ : Store F}
    {reply : Option Frame} (hlive : st.live env.clock = st₀.live env.clock)
    (h : SweptCommand env frame st reply st') :
    reply = (runEngine env (dispatch env frame) st₀).1 ∧
      st'.live env.clock = (runEngine env (dispatch env frame) st₀).2.live env.clock :=
  simulates (dispatch_visible hmem frame)
    (R := fun (s t : Store F) => s.live env.clock = t.live env.clock) swept_unseen
    (fun _ ho s t r s' => ho.sections_swept env s t r s') hlive h

structure Clock.Before (c c' : Clock) : Prop where
  boot : c'.boot = c.boot
  mono : c.mono ≤ c'.mono

/-- Commands one after the other, each in its own circumstances, without sweeps. -/
def runCommands : List (Env × Frame) → Store F → List (Option Frame) × Store F
  | [], st => ([], st)
  | (env, frame) :: rest, st =>
    let r := runEngine env (dispatch env frame) st
    let s := runCommands rest r.2
    (r.1 :: s.1, s.2)

/-- The same commands with sweeps at any points, from one clock reading to another: time goes on
between commands and sweeps, and not during a command. -/
inductive SweptRun : Clock → Store F → List (Env × Frame) → List (Option Frame) → Store F → Clock →
    Prop
  | done (c : Clock) (st : Store F) : SweptRun c st [] [] st c
  | sweep {c c' c'' : Clock} {st st₁ st' : Store F} {commands : List (Env × Frame)}
      {replies : List (Option Frame)} (htime : c.Before c') (hsweep : st.Swept c' st₁)
      (hrest : SweptRun c' st₁ commands replies st' c'') :
      SweptRun c st commands replies st' c''
  | command {c c' : Clock} {st st₁ st' : Store F} {env : Env} {frame : Frame} {reply : Option Frame}
      {commands : List (Env × Frame)} {replies : List (Option Frame)}
      (htime : c.Before env.clock) (hmem : env.maxmemory = none)
      (hcommand : SweptCommand env frame st reply st₁)
      (hrest : SweptRun env.clock st₁ commands replies st' c') :
      SweptRun c st ((env, frame) :: commands) (reply :: replies) st' c'

theorem Clock.Before.live_congr {c c' : Clock} (h : c.Before c') {st st' : Store F}
    (hlive : st.live c = st'.live c) : st.live c' = st'.live c' := by
  rw [st.live_later h.boot h.mono, st'.live_later h.boot h.mono, hlive]

theorem SweptRun.of_live {c c' : Clock} {st st' st₀ : Store F} {commands : List (Env × Frame)}
    {replies : List (Option Frame)} (h : SweptRun c st commands replies st' c')
    (hlive : st.live c = st₀.live c) :
    replies = (runCommands commands st₀).1 ∧
      st'.live c' = (runCommands commands st₀).2.live c' := by
  induction h generalizing st₀ with
  | done c st => exact ⟨rfl, hlive⟩
  | sweep htime hsweep _ ih => exact ih (hsweep.live.trans (htime.live_congr hlive))
  | command htime hmem hcommand _ ih =>
    obtain ⟨hreply, hnext⟩ := sweptCommand_live hmem (htime.live_congr hlive) hcommand
    obtain ⟨hreplies, hend⟩ := ih hnext
    exact ⟨congrArg₂ List.cons hreply hreplies, hend⟩

/-- Sweeps at any points change no reply, and no key, value or expiry that clients see at any later
time. -/
theorem sweeps_unseen {c c' later : Clock} {st st' : Store F} {commands : List (Env × Frame)}
    {replies : List (Option Frame)} (h : SweptRun c st commands replies st' c')
    (hlater : c'.Before later) :
    replies = (runCommands commands st).1 ∧
      st'.live later = (runCommands commands st).2.live later := by
  obtain ⟨hreplies, hend⟩ := h.of_live rfl
  exact ⟨hreplies, hlater.live_congr hend⟩

def expiringCommands : List (Env × Frame) :=
  [(.plain .zero, .command [txt "SET", txt "k", txt "v", txt "PX", txt "5"]),
    (.plain ⟨0, 10, by decide⟩, .command [txt "GET", txt "k"])]

theorem sweeps_unseen_get :
    ∃ (replies : List (Option Frame)) (st : Store Score),
      SweptRun .zero .new expiringCommands replies st ⟨0, 10, by decide⟩ ∧
        replies = (runCommands expiringCommands (.new : Store Score)).1 ∧
        st.live ⟨0, 20, by decide⟩ =
          (runCommands expiringCommands (.new : Store Score)).2.live ⟨0, 20, by decide⟩ := by
  let seven : Clock := ⟨0, 7, by decide⟩
  have hget (st : Store Score) : ∃ replies st', SweptRun seven st
      (expiringCommands.drop 1) replies st' ⟨0, 10, by decide⟩ := by
    have htime : seven.mono ≤ 10 := by decide
    exact ⟨_, _, .command ⟨rfl, htime⟩ rfl (sweptCommand_run _ _ _) (.done _ _)⟩
  have hrun : ∃ (replies : List (Option Frame)) (st : Store Score),
      SweptRun .zero .new expiringCommands replies st ⟨0, 10, by decide⟩ := by
    have hset := sweptCommand_run (.plain .zero)
      (.command [txt "SET", txt "k", txt "v", txt "PX", txt "5"]) (.new : Store Score)
    obtain ⟨replies, st, hrest⟩ := hget (Store.activeExpireCycle 7 _ (shardIndex (txt "k")))
    have hpassed : Clock.zero.Before seven := ⟨rfl, Nat.zero_le 7⟩
    exact ⟨_, st, .command ⟨rfl, le_rfl⟩ rfl hset
      (.sweep hpassed ⟨shardIndex (txt "k"), rfl⟩ hrest)⟩
  obtain ⟨replies, st, hswept⟩ := hrun
  have hlater : Clock.Before ⟨0, 10, by decide⟩ ⟨0, 20, by decide⟩ := ⟨rfl, by decide⟩
  exact ⟨replies, st, hswept, sweeps_unseen hswept hlater⟩

end RocketMem
