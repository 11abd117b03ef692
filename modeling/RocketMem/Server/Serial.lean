import RocketMem.Server.Contract
import RocketMem.Server.Deadlines

namespace RocketMem

open Option

variable {F : Type} [F64 F]

/-- Whoever replays the log: its environment, without a memory ceiling, and the keyspace it starts
from. -/
structure Replayer (F : Type) [F64 F] where
  env : Env
  origin : Keyspace F
  unlimited : env.maxmemory = none
  storable : origin.Storable env.clock

namespace Replayer

variable (w : Replayer F) {frame : Frame} (frames : List Frame)

def after (frames : List Frame) : Keyspace F := applyAll w.env (commands frames) w.origin

def apply (frame : Frame) (ks : Keyspace F) : Keyspace F :=
  (runKeyspace w.env.clock (dispatch w.env frame) ks).2

theorem applyAll_concat (h : marker frame = none)
    (ks : Keyspace F) : applyAll w.env (commands (frames ++ [frame])) ks =
      w.apply frame (applyAll w.env (commands frames) ks) := by
  rw [commands_append, commands_of_none h, applyAll_append]
  rfl

theorem after_concat (h : marker frame = none) :
    w.after (frames ++ [frame]) = w.apply frame (w.after frames) :=
  w.applyAll_concat frames h w.origin

theorem applyAll_silent
    (h : extractWriteCommandName frame = none) (ks : Keyspace F) :
    applyAll w.env (commands (frames ++ [frame])) ks = applyAll w.env (commands frames) ks := by
  cases hm : marker frame with
  | some mk => rw [commands_append, commands_of_some hm, List.append_nil]
  | none =>
    rw [w.applyAll_concat frames hm]
    exact runKeyspace_reads (dispatch_reads h) w.env.clock _

theorem after_silent
    (h : extractWriteCommandName frame = none) : w.after (frames ++ [frame]) = w.after frames :=
  w.applyAll_silent frames h w.origin

def view (s : Node F) (k : Bytes) : Slot F × Slot F × Slot F :=
  (s.store.live w.env.clock k, w.after s.frames k, w.after s.sent k)

end Replayer

def Level (v : Slot F × Slot F × Slot F) : Prop := v.1 = v.2.1 ∧ v.2.2 = v.2.1

/-- A walk over the keyspace, written out. -/
def ImageOf (env : Env) (offset : Nat) (ks : Keyspace F) (blob : Bytes) : Prop :=
  ∃ entries, Captures env.clock (fun _ => True) ks entries ∧
    blob = serializeEntries env offset entries ∧ (blob.length : Int) ≤ i64Max

/-- The blob is an image of the keyspace that a snapshot can carry. -/
def Loads (c : Clock) (blob : Bytes) (ks : Keyspace F) : Prop :=
  ∃ env offset, env.clock = c ∧ ImageOf env offset ks blob ∧ ks.Storable c ∧ offset < 256 ^ 8

section

variable (w : Replayer F)

/-- The log replays to a keyspace that snapshots can carry, and where no guard is held the store,
the log and the stream agree. -/
structure SerialInv (s : Node F) : Prop where
  logged : (w.after s.frames).Storable w.env.clock
  returns : Returns w.env (commands s.frames) w.origin
  level : ∀ k, s.guards (shardIndex k) = none → Level (w.view s k)

structure SerialRely (i : Nat) (s s' : Node F) : Prop where
  guards : ∀ j, s.guards j = some i ↔ s'.guards j = some i
  view : ∀ k, s.guards (shardIndex k) = some i → w.view s' k = w.view s k

/-- An append is made under a guard, the entries of a snapshot are what the log says, and a replica
is registered with what the stream says. -/
def SerialAssert (i : Nat) (o : ServerOp F) (s : Node F) : Prop :=
  match o with
  | .append _ => ∃ j, s.guards j = some i
  | .note (.captured env entries) =>
    env.clock = w.env.clock ∧ Captures w.env.clock (fun _ => True) (w.after s.frames) entries
  | .fanout (.register blob) => Loads w.env.clock blob (w.after s.sent)
  | _ => True

def serial : Discipline (ServerOp F) (Node F) where
  inv := SerialInv w
  rely := SerialRely w
  asserts := SerialAssert w
  absent i s := ∀ j, s.guards j ≠ some i
  rely_refl _ _ := ⟨fun _ => Iff.rfl, fun _ _ => rfl⟩
  rely_trans h h' := ⟨fun j => (h.guards j).trans (h'.guards j), fun k hk =>
    (h'.view k ((h.guards _).mp hk)).trans (h.view k hk)⟩
  absent_stable h _ habsent j hj := habsent j ((h.guards j).mpr hj)

variable {w} {i : Nat} {s s' : Node F}

theorem serial_keeps (hinv : SerialInv w s) (hguards : s'.guards = s.guards)
    (hview : ∀ k, s.guards (shardIndex k) ≠ some i → w.view s' k = w.view s k)
    (hlogged : (w.after s'.frames).Storable w.env.clock)
    (hreturns : Returns w.env (commands s'.frames) w.origin) : (serial w).Keeps i s s' := by
  refine ⟨⟨hlogged, hreturns, fun k hk => ?_⟩, fun j hj => ⟨fun j' => by rw [hguards], ?_⟩⟩
  · rw [hguards] at hk
    rw [hview k (by rw [hk]; exact nofun)]
    exact hinv.level k hk
  · intro k hk
    refine hview k fun h => hj ?_
    rw [h] at hk
    exact (some.inj hk).symm

structure Unseen (w : Replayer F) (s s' : Node F) : Prop where
  guards : s'.guards = s.guards
  live : s'.store.live w.env.clock = s.store.live w.env.clock
  log : s'.log = s.log
  sent : s'.sent = s.sent

theorem Unseen.frames (h : Unseen w s s') : s'.frames = s.frames :=
  congrArg (List.map Prod.snd) h.log

theorem Unseen.view (h : Unseen w s s') (k : Bytes) : w.view s' k = w.view s k := by
  simp only [Replayer.view, h.live, h.frames, h.sent]

theorem Unseen.keeps (h : Unseen w s s') (hinv : SerialInv w s) : (serial w).Keeps i s s' := by
  refine serial_keeps hinv h.guards (fun k _ => h.view k) ?_ ?_
  · rw [h.frames]
    exact hinv.logged
  · rw [h.frames]
    exact hinv.returns

end

structure Critical (w : Replayer F) (i : Nat) (L : Finset (Fin shardCount)) (A B C : Keyspace F)
    (s : Node F) : Prop where
  guards : ∀ j, s.guards j = some i ↔ j ∈ L
  view : ∀ k, shardIndex k ∈ L → w.view s k = (A k, B k, C k)

def Synced (w : Replayer F) (i : Nat) (L : Finset (Fin shardCount)) (s : Node F) : Prop :=
  ∃ A, A.Storable w.env.clock ∧ Critical w i L A A A s

section

variable {w : Replayer F} {i : Nat} {L : Finset (Fin shardCount)} {A B C : Keyspace F}
  {s s' : Node F}

theorem Critical.stable : (serial w).Stable i (Critical w i L A B C) := by
  intro s s' hrely _ h
  refine ⟨fun j => (hrely.guards j).symm.trans (h.guards j), fun k hk => ?_⟩
  rw [hrely.view k ((h.guards _).mpr hk)]
  exact h.view k hk

theorem Critical.unseen (h : Critical w i L A B C s) (hsame : Unseen w s s') :
    Critical w i L A B C s' :=
  ⟨fun j => by rw [hsame.guards, h.guards], fun k hk => (hsame.view k).trans (h.view k hk)⟩

theorem Critical.live (h : Critical w i L A B C s) {k : Bytes} (hk : shardIndex k ∈ L) :
    s.store.live w.env.clock k = A k :=
  congrArg Prod.fst (h.view k hk)

theorem Critical.logged (h : Critical w i L A B C s) {k : Bytes} (hk : shardIndex k ∈ L) :
    w.after s.frames k = B k :=
  congrArg (fun v => v.2.1) (h.view k hk)

theorem Critical.sent (h : Critical w i L A B C s) {k : Bytes} (hk : shardIndex k ∈ L) :
    w.after s.sent k = C k :=
  congrArg (fun v => v.2.2) (h.view k hk)

theorem Synced.stable : (serial w).Stable i (Synced w i L) := by
  rintro s s' hrely hinv ⟨A, hA, h⟩
  exact ⟨A, hA, Critical.stable s s' hrely hinv h⟩

theorem Synced.guards (h : Synced w i L s) : ∀ j, s.guards j = some i ↔ j ∈ L := by
  obtain ⟨A, -, h⟩ := h
  exact h.guards

theorem Synced.level (h : Synced w i L s) {k : Bytes} (hk : shardIndex k ∈ L) :
    Level (w.view s k) := by
  obtain ⟨A, -, h⟩ := h
  rw [h.view k hk]
  exact ⟨rfl, rfl⟩

theorem Synced.unseen (h : Synced w i L s) (hsame : Unseen w s s') : Synced w i L s' := by
  obtain ⟨A, hA, h⟩ := h
  exact ⟨A, hA, h.unseen hsame⟩

theorem synced_of_level (hinv : SerialInv w s) (hguards : ∀ j, s.guards j = some i ↔ j ∈ L)
    (hlevel : ∀ k, shardIndex k ∈ L → Level (w.view s k)) : Synced w i L s :=
  ⟨w.after s.frames, hinv.logged, hguards, fun k hk =>
    Prod.ext (hlevel k hk).1 (Prod.ext rfl (hlevel k hk).2)⟩

theorem synced_empty (hinv : SerialInv w s) (h : ∀ j, s.guards j ≠ some i) : Synced w i ∅ s :=
  synced_of_level hinv (fun j => by simp [h j]) fun k hk => absurd hk (Finset.notMem_empty _)

theorem Synced.release (hinv : SerialInv w s) (h : Synced w i L s)
    (hguards : ∀ j, s'.guards j = if s.guards j = some i then none else s.guards j)
    (hstore : s'.store = s.store) (hlog : s'.log = s.log) (hsent : s'.sent = s.sent) :
    (serial w).Keeps i s s' ∧ ∀ j, s'.guards j ≠ some i := by
  have hframes : s'.frames = s.frames := congrArg (List.map Prod.snd) hlog
  have hview (k : Bytes) : w.view s' k = w.view s k := by
    simp only [Replayer.view, hstore, hframes, hsent]
  refine ⟨⟨⟨?_, ?_, fun k hk => ?_⟩, fun j hj => ⟨fun j' => ?_, fun k _ => hview k⟩⟩, fun j => ?_⟩
  · rw [hframes]
    exact hinv.logged
  · rw [hframes]
    exact hinv.returns
  · rw [hview]
    by_cases hmine : s.guards (shardIndex k) = some i
    · exact h.level ((h.guards _).mp hmine)
    · rw [hguards, if_neg hmine] at hk
      exact hinv.level k hk
  · rw [hguards]
    split
    · next hi =>
      rw [hi]
      exact ⟨fun h => absurd (some.inj h).symm hj, nofun⟩
    · rfl
  · rw [hguards]
    split
    · exact nofun
    · next hi => exact hi

theorem Synced.unwind (hinv : SerialInv w s) (h : Synced w i L s) (cfg : Settings) :
    (serial w).Keeps i s ((server F cfg).unwind i s) ∧
      (serial w).absent i ((server F cfg).unwind i s) :=
  h.release hinv (fun _ => rfl) rfl rfl rfl

end

def ServerOp.Quiet (w : Replayer F) : ServerOp F → Prop
  | engine env o => env.clock = w.env.clock ∧ o.IsRead
  | fanout (.register _) | note (.captured _ _) => False
  | clearShard _ | lockShard _ | unlockShards | append _ | broadcast _ => False
  | _ => True

theorem ServerOp.Quiet.exec {w : Replayer F} {cfg : Settings} {i : Nat} {x : Option Fault}
    {o : ServerOp F} (h : o.Quiet w) {s s' : Node F} {r : o.Ret}
    (hx : (server F cfg).exec i x o s = some (r, s')) : Unseen w s s' := by
  have hs' := congrArg (Option.map Prod.snd) hx
  cases o with
  | engine env o =>
    obtain rfl := some.inj hs'
    have hread := h.2.exec_live env s.store
    rw [h.1] at hread
    exact ⟨rfl, hread, rfl, rfl⟩
  | clearShard | lockShard | unlockShards | append | broadcast => exact h.elim
  | fanout o =>
    obtain rfl := some.inj hs'
    cases o with
    | register blob => exact h.elim
    | _ => exact ⟨rfl, rfl, rfl, rfl⟩
  | follow o =>
    simp only [server, ServerOp.exec, map_map] at hs'
    obtain ⟨_, -, rfl⟩ := map_eq_some_iff.mp hs'
    exact ⟨rfl, rfl, rfl, rfl⟩
  | note n =>
    obtain rfl := some.inj hs'
    cases n with
    | captured => exact h.elim
    | _ => exact ⟨rfl, rfl, rfl, rfl⟩
  | shardEntries | lockRewrite | unlockRewrite | flush | rotate | aofLen | readFile | create | write
  | sync | rename | syncDir | remove =>
    obtain ⟨_, _, _, _, _, _, rfl, -⟩ := exec_onFiles hx trivial
    exact ⟨rfl, rfl, rfl, rfl⟩

theorem ServerOp.Quiet.asserts {w : Replayer F} {o : ServerOp F} (h : o.Quiet w) (i : Nat)
    (s : Node F) : SerialAssert w i o s := by
  cases o with
  | append => exact h.elim
  | note n =>
    cases n with
    | captured => exact h.elim
    | _ => trivial
  | fanout o =>
    cases o with
    | register => exact h.elim
    | _ => trivial
  | _ => trivial

variable {w : Replayer F} {cfg : Settings}
  {permits : Nat → Option Fault → ServerOp F → Node F → Prop} {i : Nat} {L : Finset (Fin shardCount)} {A B C : Keyspace F} {α : Type}

theorem quiet_critical {o : ServerOp F} (ho : o.Quiet w) :
    (serial w).Triple (server F cfg) permits i (Critical w i L A B C) (perform o)
      fun _ => Critical w i L A B C := by
  refine .perform Critical.stable (fun _ => Critical.stable) (fun s _ _ => ho.asserts i s) ?_
  intro s hinv hs x r s' _ hx
  exact ⟨(ho.exec hx).keeps hinv, hs.unseen (ho.exec hx)⟩

theorem quiet_triple {p : ServerProgram F α} (hp : p.Calls (ServerOp.Quiet w)) :
    (serial w).Triple (server F cfg) permits i (Synced w i L) p fun _ => Synced w i L := by
  refine .of_calls hp Synced.stable (fun s hinv hs => hs.unwind hinv cfg)
    (fun o ho s _ _ => ho.asserts i s) ?_
  intro o ho s hinv hs x r s' _ hx
  exact ⟨(ho.exec hx).keeps hinv, hs.unseen (ho.exec hx)⟩

theorem lockShard_triple (j : Fin shardCount) :
    (serial w).Triple (server F cfg) permits i (Synced w i L) (perform (.lockShard j))
      fun _ s => j ∉ L ∧ Synced w i (insert j L) s := by
  have hstable : (serial w).Stable i fun s => j ∉ L ∧ Synced w i (insert j L) s :=
    fun s s' hrely hinv h => ⟨h.1, Synced.stable s s' hrely hinv h.2⟩
  refine .perform Synced.stable (fun _ => hstable) (fun _ _ _ => trivial) ?_
  intro s hinv hs x r s' _ hx
  obtain ⟨hfree, rfl⟩ := exec_lockShard hx
  have hinv' : SerialInv w (s.takeShard i j) := by
    refine ⟨hinv.logged, hinv.returns, fun k hk => ?_⟩
    rw [Node.takeShard_guards] at hk
    split at hk
    · cases hk
    · exact hinv.level k hk
  refine ⟨⟨hinv', fun i' hi' => ⟨fun j' => ?_, fun _ _ => rfl⟩⟩, fun hj => ?_, ?_⟩
  · rw [Node.takeShard_guards]
    split
    · next hj =>
      rw [hj, hfree]
      exact ⟨nofun, fun h => absurd (some.inj h).symm hi'⟩
    · rfl
  · rw [(hs.guards j).mpr hj] at hfree
    cases hfree
  · refine synced_of_level hinv' (fun j' => ?_) fun k hk => ?_
    · rw [Node.takeShard_guards]
      split
      · next hj => simp [hj]
      · next hj => simp [hs.guards, hj]
    · rcases Finset.mem_insert.mp hk with hkj | hkL
      · exact hinv.level k (hkj ▸ hfree)
      · exact hs.level hkL

theorem unlockShards_triple :
    (serial w).Triple (server F cfg) permits i (Synced w i L) unlockShards
      fun _ => Synced w i ∅ := by
  refine .perform Synced.stable (fun _ => Synced.stable) (fun _ _ _ => trivial) ?_
  intro s hinv hs x r s' _ hx
  obtain rfl := some.inj (congrArg (Option.map Prod.snd) hx)
  obtain ⟨hkeeps, hnone⟩ : (serial w).Keeps i s (s.releaseShards i) ∧
      ∀ j, (s.releaseShards i).guards j ≠ some i :=
    hs.release hinv (fun _ => rfl) rfl rfl rfl
  exact ⟨hkeeps, synced_empty hkeeps.1 hnone⟩

theorem serial_locking : Locking (serial w) cfg permits i (Synced w i) :=
  ⟨fun _ => Synced.stable, fun j _ => lockShard_triple j, fun _ => unlockShards_triple⟩

end RocketMem
