import RocketMem.Server.LogSimulation

namespace RocketMem

open List Function Dispatch

variable {F : Type} [F64 F]

structure Leader (F : Type) [F64 F] where
  store : Store F
  log : List Frame

namespace Leader

/-- One command, run through `dispatch_and_log` outside MULTI at its own time. A panic logs
nothing. -/
def step (l : Leader F) (e : Env × Frame) : Leader F :=
  let r := runEngine e.1 (dispatch e.1 e.2) l.store
  ⟨r.2, l.log ++ r.1.elim [] (toLog e.1.clock e.2)⟩

def run (history : List (Env × Frame)) : Leader F := history.foldl step ⟨Store.new, []⟩

theorem run_concat (history : List (Env × Frame)) (e : Env × Frame) :
    (run (history ++ [e]) : Leader F) = (run history).step e := by
  rw [run, foldl_append]
  rfl

end Leader

/-- A history of an unlimited leader whose commands run one after another, none of them later than
`clock`, all on the clock that read zero at `clock.boot`. -/
structure Chronological (clock : Clock) (history : List (Env × Frame)) : Prop where
  unlimited : ∀ e ∈ history, e.1.maxmemory = none
  boot : ∀ e ∈ history, e.1.clock.boot = clock.boot
  past : ∀ e ∈ history, e.1.clock.mono ≤ clock.mono
  ordered : history.Pairwise fun e e' => e.1.clock.mono ≤ e'.1.clock.mono
  fits : ∀ e ∈ history, TtlFits e.1.clock e.2

/-- Replaying the history's log at `env.clock` reaches what the leader holds at that time. -/
def ReplaysAt (F : Type) [F64 F] (env : Env) (history : List (Env × Frame)) : Prop :=
  (dispatchAll env (Leader.run history : Leader F).log Store.new).live env.clock =
    (Leader.run history : Leader F).store.live env.clock

/-- When the command runs, every key whose presence it depends on lives on to `T`, and it is no
misread SET on a missing key. -/
def Steady (T : Nat) (ks : Keyspace F) (e : Env × Frame) : Prop :=
  (∀ k ∈ framePresenceKeys T e.1.clock e.2, ¬ (ks k).Doomed T) ∧ ¬ LosesNx e.2 ks

namespace Chronological

variable {clock : Clock} {history : List (Env × Frame)} {e : Env × Frame}

theorem init (h : Chronological clock (history ++ [e])) : Chronological clock history where
  unlimited e' he' := h.unlimited e' (mem_append_left _ he')
  boot e' he' := h.boot e' (mem_append_left _ he')
  past e' he' := h.past e' (mem_append_left _ he')
  ordered := (pairwise_append.mp h.ordered).1
  fits e' he' := h.fits e' (mem_append_left _ he')

theorem last_mem : e ∈ history ++ [e] := mem_append_right _ (mem_singleton_self e)

theorem sound (h : Chronological clock history) {c : Clock} (hboot : c.boot = clock.boot)
    (hlater : ∀ e ∈ history, e.1.clock.mono ≤ c.mono) :
    ((Leader.run history : Leader F).store.live c).Sound c := by
  induction history using List.reverseRecOn generalizing c with
  | nil => exact sound_new c
  | append_singleton history e ih =>
    have hearlier : ∀ e' ∈ history, e'.1.clock.mono ≤ e.1.clock.mono := fun e' he' =>
      (pairwise_append.mp h.ordered).2.2 e' he' e (mem_singleton_self e)
    have hnow := dispatch_sound (h.unlimited e last_mem) e.2
      (ih h.init (h.boot e last_mem) hearlier)
    have hboot' : c.boot = e.1.clock.boot := hboot.trans (h.boot e last_mem).symm
    rw [Leader.run_concat, Store.live_later hboot' (hlater e last_mem)]
    exact Keyspace.survive_sound hboot' hnow

end Chronological

section

variable {env : Env} (hmem : env.maxmemory = none) {l : Leader F} {e : Env × Frame}

include hmem

theorem Leader.step_replays (hmem' : e.1.maxmemory = none)
    (hboot : env.clock.boot = e.1.clock.boot) (hmono : e.1.clock.mono ≤ env.clock.mono)
    (hfits : TtlFits e.1.clock e.2) (hsound : (l.store.live e.1.clock).Sound e.1.clock)
    (hsteady : Steady env.clock.wall (l.store.live e.1.clock) e)
    (hlog : applyAll env l.log (fun _ => none) = l.store.live env.clock) :
    applyAll env (l.step e).log (fun _ => none) = (l.step e).store.live env.clock := by
  have hwall : e.1.clock.wall ≤ env.clock.wall := by
    unfold Clock.wall
    omega
  have hbefore := Store.live_later hboot hmono l.store
  have hafter := Store.live_later hboot hmono (l.step e).store
  rw [hafter, step, applyAll_append, hlog, hbefore]
  dsimp only
  cases hframe : extractWriteCommandName e.2 with
  | none =>
    have hread : (runEngine e.1 (dispatch e.1 e.2) l.store).2.live e.1.clock =
        l.store.live e.1.clock := runEngine_reads (dispatch_reads hframe) e.1 l.store
    have hquiet : (runEngine e.1 (dispatch e.1 e.2) l.store).1.elim [] (toLog e.1.clock e.2) =
        [] := by
      cases (runEngine e.1 (dispatch e.1 e.2) l.store).1 with
      | none => rfl
      | some reply => simp [toLog, hframe]
    rw [hquiet, applyAll_nil, hread]
  | some c =>
    have hatomic := dispatch_atomic (F := F) hmem' hframe
    obtain ⟨hreply, heffect⟩ := runEngine_live hatomic.touches e.1 l.store
    rw [hreply, heffect]
    have hunchanged := hatomic.unchanged _ hsound
    rcases hrun : runKeyspace e.1.clock (dispatch e.1 e.2) (l.store.live e.1.clock) with
      ⟨_ | reply, ks'⟩
    · rw [hrun] at hunchanged
      have hsame : ks' = l.store.live e.1.clock := hunchanged fun r hr => by cases hr
      rw [hsame]
      rfl
    · cases hok : reply.isError with
      | true =>
        rw [hrun] at hunchanged
        have hsame : ks' = l.store.live e.1.clock := hunchanged fun r hr => by cases hr; exact hok
        rw [hsame]
        simp [toLog, hok]
      | false =>
        exact applyAll_toLog_later hmem' hmem hwall hboot hsound hframe hrun hok hfits hsteady.2
          hsteady.1

end

/-- A leader's log replays to the leader's own keyspace at every later time, as long as no command
depended on the presence of a key that is gone by then and no misread SET met a missing key. -/
theorem replay_at_any_time (env : Env) (hmem : env.maxmemory = none)
    (history : List (Env × Frame)) (hchron : Chronological env.clock history)
    (hsteady : ∀ before e after, history = before ++ e :: after →
      Steady env.clock.wall ((Leader.run before : Leader F).store.live e.1.clock) e) :
    ReplaysAt F env history := by
  have hreplay := dispatchAll_live hmem (Leader.run history : Leader F).log (Store.new : Store F)
  rw [ReplaysAt, hreplay]
  clear hreplay
  change applyAll env _ (fun _ => none : Keyspace F) = _
  induction history using List.reverseRecOn with
  | nil => rfl
  | append_singleton history e ih =>
    have hlast : e ∈ history ++ [e] := Chronological.last_mem
    have hearlier : ∀ e' ∈ history, e'.1.clock.mono ≤ e.1.clock.mono := fun e' he' =>
      (pairwise_append.mp hchron.ordered).2.2 e' he' e (mem_singleton_self e)
    have hbefore := ih hchron.init fun before e' after hsplit =>
      hsteady before e' (after ++ [e]) (by rw [hsplit, append_assoc, cons_append])
    rw [Leader.run_concat]
    exact Leader.step_replays hmem (hchron.unlimited e hlast) (hchron.boot e hlast).symm
      (hchron.past e hlast) (hchron.fits e hlast)
      (hchron.init.sound (hchron.boot e hlast) hearlier) (hsteady history e [] rfl) hbefore

theorem toLog_setFrame (c : Clock) (key val : Bytes) {words : List Bytes} {ttl : Option Int}
    (httl : setTtl words = .ok ttl) :
    toLog c (setFrame key val words) okReply =
      (ttl.map fun ms => [setFrame key val (flagWords words),
        pexpireatFrame key (saturatingAdd c.unixMs ms)]).getD [setFrame key val words] := by
  have hok : okReply.isError = false := rfl
  have hlog := toLog_command c commandName_set (by decide) (key :: val :: words) hok
  refine hlog.trans ?_
  have hrewrite := rewriteSetTtl_words c (.bulk (txt "SET")) key val httl
  exact congrArg (·.getD [setFrame key val words]) hrewrite

theorem Leader.step_setFrame {env : Env} (hmem : env.maxmemory = none) (l : Leader F)
    (key val : Bytes) {words : List Bytes} {ttl : Option Int}
    (httl : setTtl words = .ok ttl)
    (happ : setApplies words (l.store.live env.clock key) = true) :
    (l.step (env, setFrame key val words)).store.live env.clock =
        update (l.store.live env.clock) key (setSlot env.clock val ttl) ∧
      (l.step (env, setFrame key val words)).log =
        l.log ++ toLog env.clock (setFrame key val words) okReply := by
  have hrun := runKeyspace_setFrame hmem key val httl happ
  have hlive := runEngine_live (dispatch_atomic hmem (setFrame_isWrite key val words)).touches env
    l.store
  rw [hrun] at hlive
  refine ⟨hlive.2, ?_⟩
  simp only [step, hlive.1, Option.elim_some]

def atMs (ms : Nat) (h : ((0 + ms : Nat) : Int) ≤ i64Max) : Env := Env.plain ⟨0, ms, h⟩

def atBoot (frames : List Frame) : List (Env × Frame) := frames.map (Prod.mk Env.still)

theorem chronological_atBoot {frames : List Frame} (hfits : ∀ f ∈ frames, TtlFits .zero f)
    {clock : Clock} (hboot : clock.boot = 0) : Chronological clock (atBoot frames) := by
  refine ⟨?_, ?_, ?_, ?_, ?_⟩
  · exact forall_mem_map.mpr fun _ _ => rfl
  · exact forall_mem_map.mpr fun _ _ => hboot.symm
  · exact forall_mem_map.mpr fun _ _ => Nat.zero_le _
  · exact pairwise_map.mpr (pairwise_of_forall fun _ _ => le_refl _)
  · exact forall_mem_map.mpr hfits

def shortWords : List Bytes := ["PX", "100"].map txt

def xxWords : List Bytes := ["XX"].map txt

theorem setTtl_shortWords : setTtl shortWords = .ok (some 100) := by
  have hex : flagValue "EX" shortWords = none := by decide
  have hpx : flagValue "PX" shortWords = some (some 100) := by decide
  rw [setTtl, hex, hpx]

theorem setTtl_xxWords : setTtl xxWords = .ok none := by
  have hex : flagValue "EX" xxWords = none := by decide
  have hpx : flagValue "PX" xxWords = none := by decide
  rw [setTtl, hex, hpx]

def shortSet : Frame := setFrame (txt "k") (txt "v") shortWords

def overwrite : Frame := setFrame (txt "k") (txt "w") xxWords

theorem ttlFits_shortSet : TtlFits .zero shortSet := ttlFits_setFrame setTtl_shortWords (by decide)

theorem ttlFits_overwrite : TtlFits .zero overwrite := by
  intro ms hms
  rw [overwrite, setFrame, frameTtl_command commandName_set, requestedTtl, setTtl_xxWords] at hms
  cases hms

theorem replay_at_any_time_shortSet :
    ReplaysAt Score (atMs 100 (by decide)) (atBoot [shortSet]) := by
  refine replay_at_any_time _ rfl _ (chronological_atBoot ?_ rfl) ?_
  · exact forall_mem_singleton.mpr ttlFits_shortSet
  · intro before e after hsplit
    obtain ⟨rfl, rfl⟩ : before = [] ∧ e = (Env.still, shortSet) := by
      rcases before with _ | ⟨e', before⟩
      · exact ⟨rfl, (List.cons.inj hsplit).1.symm⟩
      · exact absurd (congrArg List.length hsplit) (by simp [atBoot])
    refine ⟨fun k hk => ?_, fun hloses => ?_⟩
    · rw [shortSet, setFrame, framePresenceKeys_command commandName_set, presenceKeys,
        if_neg (by decide)] at hk
      cases hk
    · have hmisread := ((losesNx_setFrame _ _ _ _).mp hloses).1
      exact absurd hmisread (by decide)

theorem applyAll_overwritten (env : Env) (hmem : env.maxmemory = none)
    (hlate : 100 ≤ env.clock.wall) :
    applyAll env (toLog .zero shortSet okReply ++ toLog .zero overwrite okReply)
      (fun _ => none : Keyspace F) (txt "k") = none := by
  have hfirst : toLog .zero shortSet okReply =
      [.command (txt "SET" :: txt "k" :: txt "v" :: flagWords shortWords),
        pexpireatFrame (txt "k") (saturatingAdd Clock.zero.unixMs 100)] :=
    toLog_setFrame .zero (txt "k") (txt "v") setTtl_shortWords
  have hsecond : toLog .zero overwrite okReply = [setFrame (txt "k") (txt "w") xxWords] :=
    toLog_setFrame .zero (txt "k") (txt "w") setTtl_xxWords
  have hgone : Slot.expire env.clock (saturatingAdd Clock.zero.unixMs 100).toNat
      (some (.string (txt "v"), none) : Slot F) = none := by
    have hdeadline : (saturatingAdd Clock.zero.unixMs 100).toNat = 100 := by decide
    rw [hdeadline, Slot.expire_some, if_pos hlate]
  have hkept : setApplies (flagWords shortWords) (none : Slot F) = true := by
    simp [setApplies, show hasFlag "NX" (flagWords shortWords) = false by
      decide, show hasFlag "XX" (flagWords shortWords) = false by decide]
  have hrefused : setApplies xxWords (none : Slot F) = false := by
    simp [setApplies, show hasFlag "NX" xxWords = false by decide,
      show hasFlag "XX" xxWords = true by decide]
  rw [applyAll_append, hfirst, applyAll_rewrittenSet hmem commandName_set _ _ _
    (saturatingAdd_inI64 _ _), hkept, if_pos rfl, hgone, Keyspace.update_missing rfl, hsecond,
    applyAll_cons, applyAll_nil]
  have hset := runKeyspace_set (F := F) hmem (txt "k") (txt "w") xxWords fun _ => none
  rw [setTtl_xxWords] at hset
  simp only [hrefused, Bool.false_eq_true, if_false] at hset
  rw [setFrame, dispatch_command commandName_set]
  exact congrFun (congrArg Prod.snd hset) (txt "k")

theorem replay_depends_on_time :
    ¬ ∀ (env : Env) (history : List (Env × Frame)), env.maxmemory = none →
      Chronological env.clock history → ReplaysAt Score env history := by
  intro h
  let start : Leader Score := ⟨Store.new, []⟩
  let late : Env := atMs 100 (by decide)
  have hfits : ∀ f ∈ [shortSet, overwrite], TtlFits .zero f := by
    simp only [forall_mem_cons, not_mem_nil, false_implies, implies_true, and_true]
    exact ⟨ttlFits_shortSet, ttlFits_overwrite⟩
  have hreplay := h late (atBoot [shortSet, overwrite]) rfl (chronological_atBoot hfits rfl)
  -- on the leader the key is overwritten while it lives
  obtain ⟨hlive, hlog⟩ := start.step_setFrame (rfl : Env.still.maxmemory = none) (txt "k")
    (txt "v") setTtl_shortWords (by decide)
  have happ : setApplies xxWords ((start.step (Env.still, shortSet)).store.live
      Env.still.clock (txt "k")) = true := by
    rw [shortSet, hlive, update_self]
    decide
  obtain ⟨hlive', hlog'⟩ := Leader.step_setFrame (rfl : Env.still.maxmemory = none) _
    (txt "k") (txt "w") setTtl_xxWords happ
  let final : Leader Score := (start.step (Env.still, shortSet)).step (Env.still, overwrite)
  have hkept : final.store.live late.clock (txt "k") = some (.string (txt "w"), none) := by
    have hlater : final.store.live late.clock =
        (final.store.live Env.still.clock).survive late.clock.wall :=
      @Store.live_later _ _ Env.still.clock late.clock rfl (Nat.zero_le _) final.store
    rw [hlater, Keyspace.survive, show final.store.live Env.still.clock = _ from hlive',
      update_self]
    rfl
  -- the replay finds it gone
  have hreach := dispatchAll_live (rfl : late.maxmemory = none) final.log (Store.new : Store Score)
  have hmissing := applyAll_overwritten (F := Score) late rfl le_rfl
  have hlogged : final.log = toLog .zero shortSet okReply ++ toLog .zero overwrite okReply := by
    have hclock : Env.still.clock = .zero := rfl
    rw [show final.log = _ from hlog', shortSet, hlog, hclock, show start.log = [] from rfl,
      nil_append, overwrite]
  have hsame := congrFun (hreach.symm.trans hreplay) (txt "k")
  rw [hlogged] at hsame
  cases (hmissing.symm.trans hsame).trans hkept

end RocketMem
