import RocketMem.Engine.SnapshotLoad
import RocketMem.Server.LoggedFrames

namespace RocketMem

open Function Dispatch

variable {F : Type} [F64 F] {env : Env}

theorem Slot.bounded_none : Slot.Bounded (none : Slot F) := fun _ _ h => nomatch h

theorem Slot.bounded_fresh (v : Value F) : Slot.Bounded (some (v, none)) := by
  rintro _ _ ⟨⟩

theorem Slot.expire_bounded {c : Clock} {t : Nat} (ht : (t : Int) ≤ i64Max) (s : Slot F) :
    (s.expire c t).Bounded := by
  rcases s with _ | ⟨v, d⟩
  · exact Slot.bounded_none
  · rw [Slot.expire_some]
    split
    · exact Slot.bounded_none
    · rintro _ _ ⟨⟩
      exact ht

theorem KeyOp.IsPlain.bounded {op : KeyOp F} (h : op.IsPlain) {c : Clock} {s : Slot F}
    (hs : s.Bounded) : (op.onSlot c s).2.Bounded := by
  cases op with
  | get | existsKey | withRef => exact hs
  | set value => exact Slot.bounded_fresh value
  | del => exact Slot.bounded_none
  | withMutDelta f =>
    rcases s with _ | ⟨v, d⟩
    · exact hs
    · simp only [onSlot, Option.bind_some]
      split
      · exact Slot.bounded_none
      · rintro _ t ⟨⟩
        exact hs v t rfl
  | persist =>
    rcases s with _ | ⟨v, d⟩
    · exact hs
    · exact Slot.bounded_fresh v
  | expireAt | ttl => exact h.elim

section

variable {ks : Keyspace F}

theorem bounded_update (hks : ∀ k, (ks k).Bounded) (key : Bytes) {s : Slot F} (hs : s.Bounded)
    (k : Bytes) : Slot.Bounded (update ks key s k) := by
  by_cases hk : k = key
  · subst hk
    rwa [update_self]
  · rw [update_of_ne hk]
    exact hks k

theorem runKeyspace_plain_bounded {α : Type} {K : Bytes → Prop} {p : EngineProgram F α}
    (hp : p.Calls (EngineOp.PlainOn K)) {c : Clock} (hks : ∀ k, (ks k).Bounded) (k : Bytes) :
    ((runKeyspace c p ks).2 k).Bounded := by
  refine Program.run_invariant hp (I := fun ks' : Keyspace F => ∀ k, (ks' k).Bounded) ?_ hks k
  intro o ho ks' hks'
  cases o with
  | key key op => exact bounded_update hks' key (ho.2.bounded (hks' key))
  | _ => exact ho.elim

theorem bounded_move (hks : ∀ k, (ks k).Bounded) {src : Bytes} (dst : Bytes)
    {e : Value F × Option Nat} (he : ks src = some e) (k : Bytes) : (ks.move src dst e k).Bounded :=
  bounded_update (bounded_update hks dst (he ▸ hks src)) src Slot.bounded_none k

end

section

variable {ks : Keyspace F} (hks : ∀ k, (ks k).Bounded)

include hks

theorem set_bounded (hmem : env.maxmemory = none) {args : List Bytes}
    (hfits : ∀ ms ∈ requestedTtl .set args, (env.clock.wall : Int) + ms ≤ i64Max) (k : Bytes) :
    ((runKeyspace env.clock (set env args) ks).2 k).Bounded := by
  match args with
  | [] => exact hks k
  | [_] => exact hks k
  | key :: val :: words =>
    rw [runKeyspace_set hmem]
    simp only [requestedTtl] at hfits
    cases httl : setTtl words with
    | error e => exact hks k
    | ok ttl =>
      rw [httl] at hfits
      dsimp only
      split
      · refine bounded_update hks key ?_ k
        cases ttl with
        | none => exact Slot.bounded_fresh _
        | some ms =>
          refine Slot.expire_bounded ?_ _
          have hms := hfits ms rfl
          have hclock := env.clock.wall_le
          unfold i64Max at *
          omega
      · exact hks k

theorem expireIn_bounded (name : String) (unit : Nat) {args : List Bytes}
    (hfits : ∀ key n rest, args = key :: n :: rest → ∀ ms ∈ parseI64 n,
      (env.clock.wall : Int) + ms * unit ≤ i64Max) (k : Bytes) :
    ((runKeyspace env.clock (expireIn env name unit args) ks).2 k).Bounded := by
  match args with
  | [] => exact hks k
  | [_] => exact hks k
  | key :: word :: rest =>
    cases hn : parseI64 word with
    | none =>
      simp only [expireIn, hn]
      exact hks k
    | some n =>
      have hn' := hfits key word rest rfl n hn
      rw [runKeyspace_expireIn name unit rest hn hn']
      refine bounded_update hks key (Slot.expire_bounded ?_ _) k
      have hclock := env.clock.wall_le
      rcases le_or_gt 0 n with hpos | hneg
      · rw [Nat.cast_add, Nat.cast_mul, Int.toNat_of_nonneg hpos]
        exact hn'
      · rw [Int.toNat_of_nonpos hneg.le]
        simpa using hclock

theorem expireAtUnix_bounded (name : String) {toMs : Int → Int}
    (hms : ∀ n, InI64 n → toMs n ≤ i64Max) (args : List Bytes) (k : Bytes) :
    ((runKeyspace env.clock (expireAtUnix env name toMs args) ks).2 k).Bounded := by
  match args with
  | [] => exact hks k
  | [_] => exact hks k
  | key :: word :: rest =>
    cases hn : parseI64 word with
    | none =>
      simp only [expireAtUnix, hn]
      exact hks k
    | some n =>
      rw [runKeyspace_expireAtUnix name toMs rest hn]
      refine bounded_update hks key (Slot.expire_bounded ?_ _) k
      have htarget := hms n (inI64_of_parseI64 hn)
      unfold i64Max at *
      omega

theorem rename_bounded (hmem : env.maxmemory = none) (hsound : ks.Sound env.clock)
    (args : List Bytes) (k : Bytes) :
    ((runKeyspace env.clock (Dispatch.rename env args) ks).2 k).Bounded := by
  unfold Dispatch.rename
  split
  · next src dst _ =>
    rw [runKeyspace_map, runKeyspace_rename hmem hsound]
    rcases hsrc : ks src with _ | e
    · exact hks k
    · dsimp only
      split
      · exact hks k
      · exact bounded_move hks dst hsrc k
  · exact hks k

theorem renamenx_bounded (hmem : env.maxmemory = none) (hsound : ks.Sound env.clock)
    (args : List Bytes) (k : Bytes) :
    ((runKeyspace env.clock (Dispatch.renamenx env args) ks).2 k).Bounded := by
  unfold Dispatch.renamenx
  split
  · next src dst _ =>
    rw [runKeyspace_map, runKeyspace_renamenx hmem hsound]
    rcases hsrc : ks src with _ | e
    · exact hks k
    · dsimp only
      split
      · exact hks k
      · exact bounded_move hks dst hsrc k
  · exact hks k

theorem arm_bounded (hmem : env.maxmemory = none) (hsound : ks.Sound env.clock) {c : CommandName}
    (hw : c.isWrite = true) {args : List Bytes}
    (hfits : ∀ ms ∈ requestedTtl c args, (env.clock.wall : Int) + ms ≤ i64Max) (k : Bytes) :
    ((runKeyspace env.clock (Dispatch.arm env c args) ks).2 k).Bounded := by
  cases ht : c.isTimed with
  | false => exact runKeyspace_plain_bounded (arm_plain hmem hw ht args).calls hks k
  | true =>
    cases c with
    | set => exact set_bounded hks hmem hfits k
    | expire =>
      refine expireIn_bounded hks _ 1000 ?_ k
      rintro key n rest rfl ms hms
      exact hfits _ (Option.mem_map_of_mem _ hms)
    | pexpire =>
      refine expireIn_bounded hks _ 1 ?_ k
      rintro key n rest rfl ms hms
      rw [Nat.cast_one, mul_one]
      exact hfits ms hms
    | expireat =>
      exact expireAtUnix_bounded hks _ (fun n _ => Dispatch.saturatingMul_le n 1000) args k
    | pexpireat => exact expireAtUnix_bounded hks _ (fun n hn => hn.2) args k
    | rename => exact rename_bounded hks hmem hsound args k
    | renamenx => exact renamenx_bounded hks hmem hsound args k
    | _ => cases ht

end

/-- A deadline that a command sets fits the `i64` of a snapshot. -/
theorem dispatch_storable (hmem : env.maxmemory = none) {frame : Frame} {c : CommandName}
    (h : extractWriteCommandName frame = some c) (hfits : TtlFits env.clock frame)
    {ks : Keyspace F} (hks : ks.Storable env.clock) :
    Keyspace.Storable env.clock (runKeyspace env.clock (dispatch env frame) ks).2 := by
  refine ⟨(dispatch_atomic hmem h).sound ks hks.sound, fun k => ?_⟩
  obtain ⟨hw, ⟨raw, args, rfl, hname⟩ | hreject⟩ := write_frame_cases (F := F) h
  · rw [dispatch_command hname]
    refine arm_bounded hks.bounded hmem hks.sound hw (fun ms hms => hfits ms ?_) k
    rwa [frameTtl_command hname]
  · rw [hreject env]
    exact hks.bounded k

variable {clock : Clock} {raw key : Bytes} {reply : Frame}

theorem Rewritten.ttlFits {f : Frame} (h : Rewritten raw key f) : TtlFits clock f := by
  have hnone {c : CommandName} {raw : Bytes} (args : List Bytes) (hname : commandName raw = some c)
      (hargs : requestedTtl c args = none) : TtlFits clock (.command (raw :: args)) := by
    intro ms hms
    rw [frameTtl_command hname, hargs] at hms
    cases hms
  cases h with
  | @deadline t => exact hnone [key, showInt t] commandName_pexpireat rfl
  | removal member => exact hnone [key, member] commandName_srem rfl
  | plainSet hname val words =>
    refine hnone (key :: val :: flagWords words) hname ?_
    simp only [requestedTtl, setTtl_flagWords]

theorem toLog_ttlFits {words : List Bytes} (hfits : TtlFits clock (.command words)) {f : Frame}
    (hf : f ∈ toLog clock (.command words) reply) : TtlFits clock f := by
  rcases toLog_mem clock hf with rfl | ⟨raw, key, -, hrewritten⟩
  · exact hfits
  · exact hrewritten.ttlFits

end RocketMem
