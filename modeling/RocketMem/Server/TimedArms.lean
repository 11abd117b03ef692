import RocketMem.Server.DispatchProof

namespace RocketMem

open Function

variable {F : Type} [F64 F] {env : Env}

/-- A deadline in Unix milliseconds set on a slot; one that is not ahead removes the key. -/
def Slot.expire (c : Clock) (t : Nat) (s : Slot F) : Slot F :=
  s.bind fun e => if t ≤ c.wall then none else some (e.1, some t)

@[simp] theorem Slot.expire_none (c : Clock) (t : Nat) : Slot.expire c t (none : Slot F) = none := rfl

theorem Slot.expire_some (c : Clock) (t : Nat) (v : Value F) (d : Option Nat) :
    Slot.expire c t (some (v, d)) = if t ≤ c.wall then none else some (v, some t) := rfl

theorem Slot.expire_congr (c : Clock) {t t' : Nat} (h : t = t' ∨ t ≤ c.wall ∧ t' ≤ c.wall)
    (s : Slot F) : s.expire c t = s.expire c t' := by
  rcases s with _ | ⟨v, d⟩
  · rfl
  · rcases h with rfl | ⟨h, h'⟩
    · rfl
    · rw [expire_some, expire_some, if_pos h, if_pos h']

theorem Slot.expire_sound {c : Clock} {s : Slot F} (hs : Slot.Sound c s) {t : Nat}
    (ht : (((t - c.boot) / 1000 : Nat) : Int) ≤ i64Max) : Slot.Sound c (s.expire c t) := by
  rcases s with _ | ⟨v, d⟩
  · exact hs
  · rw [expire_some]
    split
    · exact Slot.sound_none c
    · next hlater =>
      refine Slot.sound_some.mpr ⟨(hs v d rfl).1, ?_⟩
      rintro _ ⟨⟩
      exact ⟨not_le.mp hlater, ht⟩

theorem runKeyspace_expireAt (c : Clock) (key : Bytes) (deadline : Nat) (ks : Keyspace F) :
    runKeyspace c (Engine.expireAt key deadline) ks =
      (some (ks key).isSome, update ks key ((ks key).expire c (c.boot + deadline))) := by
  have hiff : deadline ≤ c.mono ↔ c.boot + deadline ≤ c.wall := by
    unfold Clock.wall
    omega
  rw [Engine.expireAt, runKeyspace_perform]
  simp only [KeyOp.onSlot, Slot.expire, hiff]

theorem Engine.instantAfter_of_le {ms : Nat} (h : (ms : Int) ≤ i64Max) :
    (Engine.instantAfter env ms : EngineProgram F Nat) = pure (env.clock.mono + ms) := by
  have hfits := env.clock.fits
  unfold i64Max at h hfits
  have hreach : ((env.clock.mono : Int) + ms) / 1000 ≤ i64Max := by
    unfold i64Max
    omega
  rw [Engine.instantAfter, if_pos hreach]

theorem instantAfter_touches {P : EngineOp F → Prop} (ms : Nat) :
    (Engine.instantAfter env ms : EngineProgram F Nat).Calls P := by
  unfold Engine.instantAfter
  split
  · exact .ret _
  · exact .halt

namespace Dispatch

theorem saturatingMul_le (a b : Int) : saturatingMul a b ≤ i64Max := by
  unfold saturatingMul i64Min i64Max
  omega

section

def setApplies (words : List Bytes) (s : Slot F) : Bool :=
  if hasFlag "NX" words then s.isNone else if hasFlag "XX" words then s.isSome else true

def setSlot (c : Clock) (val : Bytes) (ttl : Option Int) : Slot F :=
  match ttl with
  | none => some (.string val, none)
  | some ms => Slot.expire c (c.wall + ms.toNat) (some (.string val, none))

theorem setTtl_le {words : List Bytes} {ms : Int} (h : setTtl words = .ok (some ms)) :
    ms ≤ i64Max := by
  unfold setTtl at h
  split at h
  · cases h
    exact saturatingMul_le _ _
  · cases h
  · split at h
    · next n hpx =>
      cases h
      unfold flagValue at hpx
      obtain ⟨pos, -, hpos⟩ := Option.map_eq_some_iff.mp hpx
      obtain ⟨word, -, hword⟩ := Option.bind_eq_some_iff.mp hpos
      exact (inI64_of_parseI64 hword).2
    · cases h
    · cases h

theorem setTtl_error {words : List Bytes} {e : Frame} (h : setTtl words = .error e) :
    e = notAnInteger := by
  unfold setTtl at h
  split at h
  · cases h
  · cases h
    rfl
  · split at h <;> cases h
    rfl

theorem setSlot_sound (c : Clock) (val : Bytes) {ttl : Option Int} (h : ∀ ms ∈ ttl, ms ≤ i64Max) :
    Slot.Sound c (setSlot c val ttl : Slot F) := by
  have hplain : Slot.Sound c (some (.string val, none) : Slot F) :=
    Slot.sound_some.mpr ⟨rfl, fun t ht => nomatch ht⟩
  cases ttl with
  | none => exact hplain
  | some ms =>
    refine Slot.expire_sound hplain ?_
    have hms := h ms rfl
    have hfits := c.fits
    unfold Clock.wall i64Max at *
    omega

variable (hmem : env.maxmemory = none)

include hmem

theorem runKeyspace_setApply (c : Clock) (key val : Bytes) (words : List Bytes) (ks : Keyspace F) :
    runKeyspace c (setApply env key val words) ks =
      (some (setApplies words (ks key)),
        if setApplies words (ks key) then update ks key (some (.string val, none))
        else ks) := by
  unfold setApply setApplies
  split
  · rw [setNx, runKeyspace_bind, runKeyspace_existsKey]
    rcases ks key with _ | e
    · simp only [Engine.set_unlimited hmem]
      rfl
    · rfl
  · split
    · rw [setXx, runKeyspace_bind, runKeyspace_existsKey]
      rcases ks key with _ | e
      · rfl
      · simp only [Engine.set_unlimited hmem]
        rfl
    · simp only [Engine.set_unlimited hmem]
      rfl

theorem setApply_total {keys : List Bytes} {key : Bytes} (hk : key ∈ keys) (val : Bytes)
    (words : List Bytes) : PlainTotal (F := F) keys (setApply env key val words) := by
  unfold setApply
  split
  · exact setNx_total hmem hk val
  · split
    · exact setXx_total hmem hk val
    · exact .bind (Engine.set_total hmem hk rfl) fun _ => .ret _

theorem runKeyspace_set (key val : Bytes) (words : List Bytes) (ks : Keyspace F) :
    runKeyspace env.clock (set env (key :: val :: words)) ks =
      match setTtl words with
      | .error e => (some e, ks)
      | .ok ttl =>
        if setApplies words (ks key) then
          (some okReply, update ks key (setSlot env.clock val ttl))
        else (some .null, ks) := by
  cases httl : setTtl words with
  | error e =>
    simp only [set, httl]
    rfl
  | ok ttl =>
    simp only [set, httl]
    rw [runKeyspace_bind, runKeyspace_setApply hmem]
    by_cases happ : setApplies words (ks key) = true
    · simp only [happ, if_true]
      cases ttl with
      | none => rfl
      | some ms =>
        have hms : ((ms.toNat : Nat) : Int) ≤ i64Max := by
          have := setTtl_le httl
          unfold i64Max at *
          omega
        have hwall : env.clock.boot + (env.clock.mono + ms.toNat) = env.clock.wall + ms.toNat :=
          (Nat.add_assoc _ _ _).symm
        simp only [Engine.instantAfter_of_le hms, Program.pure_eq, Program.ret_bind,
          Bool.not_true, Bool.false_eq_true, if_false]
        rw [runKeyspace_bind, runKeyspace_expireAt, update_self, update_idem, hwall]
        rfl
    · simp only [happ]
      rfl

theorem set_atomic (args : List Bytes) :
    Atomic (F := F) env.clock (args.take 1) IsError (set env args) := by
  match args with
  | [] => exact .ret _
  | [_] => exact .ret _
  | key :: val :: words =>
    refine ⟨?_, fun ks hks => ?_, fun ks hks hfail => ?_⟩
    · have hk : key ∈ (key :: val :: words).take 1 := List.mem_cons_self
      unfold set
      dsimp only
      split
      · exact .ret _
      · refine ((setApply_total hmem hk val words).calls.mono fun _ =>
          EngineOp.PlainOn.on).bind fun applied => ?_
        split
        · exact .ret _
        · split
          · exact .ret _
          · exact (instantAfter_touches _).bind fun _ =>
              Program.Calls.bind (.perform hk) fun _ => .ret _
    · rw [runKeyspace_set hmem]
      cases httl : setTtl words with
      | error e => exact hks
      | ok ttl =>
        dsimp only
        split
        · refine Keyspace.sound_update hks key (setSlot_sound _ _ fun ms hms => ?_)
          exact setTtl_le (httl.trans (congrArg Except.ok (Option.mem_def.mp hms)))
        · exact hks
    · rw [runKeyspace_set hmem] at hfail ⊢
      cases httl : setTtl words with
      | error e => rfl
      | ok ttl =>
        rw [httl] at hfail
        dsimp only at hfail ⊢
        split at hfail
        · exact absurd (hfail _ rfl) (by simp [IsError, okReply, Frame.isError])
        · next h => rw [if_neg h]

end

theorem runKeyspace_expireIn (name : String) (unit : Nat) {key word : Bytes} (rest : List Bytes)
    {n : Int} (hn : parseI64 word = some n)
    (hfits : ((env.clock.wall : Int) + n * unit) ≤ i64Max) (ks : Keyspace F) :
    runKeyspace env.clock (expireIn env name unit (key :: word :: rest)) ks =
      (some (flagReply (ks key).isSome),
        update ks key ((ks key).expire env.clock (env.clock.wall + n.toNat * unit))) := by
  have hms : ((n.toNat * unit : Nat) : Int) ≤ i64Max := by
    rw [Nat.cast_mul]
    rcases le_or_gt 0 n with hpos | hneg
    · rw [Int.toNat_of_nonneg hpos]
      omega
    · rw [Int.toNat_of_nonpos hneg.le]
      simp [i64Max]
  have hwall : env.clock.boot + (env.clock.mono + n.toNat * unit) =
      env.clock.wall + n.toNat * unit :=
    (Nat.add_assoc _ _ _).symm
  simp only [expireIn, hn, Engine.instantAfter_of_le hms, Program.pure_eq, Program.ret_bind]
  rw [runKeyspace_map, runKeyspace_expireAt, hwall]
  rfl

theorem runKeyspace_expireAtUnix (name : String) (toMs : Int → Int) {key word : Bytes}
    (rest : List Bytes) {n : Int} (hn : parseI64 word = some n) (ks : Keyspace F) :
    runKeyspace env.clock (expireAtUnix env name toMs (key :: word :: rest)) ks =
      (some (flagReply (ks key).isSome),
        update ks key ((ks key).expire env.clock (toMs n).toNat)) := by
  have hmax : (ks key).expire env.clock
      (env.clock.boot + instantFromUnixMs env.clock (toMs n)) =
        (ks key).expire env.clock (toMs n).toNat := by
    refine Slot.expire_congr env.clock ?_ _
    unfold instantFromUnixMs Clock.wall
    omega
  simp only [expireAtUnix, hn]
  rw [runKeyspace_map, runKeyspace_expireAt, hmax]
  rfl

theorem expireAt_atomic {keys : List Bytes} {key : Bytes} (hk : key ∈ keys) {deadline : Nat}
    (hreach : ((deadline / 1000 : Nat) : Int) ≤ i64Max) :
    Atomic (F := F) env.clock keys IsError (flagReply <$> Engine.expireAt key deadline) where
  touches := Program.Calls.bind (.perform hk) fun _ => .ret _
  sound ks hks := by
    rw [runKeyspace_map, runKeyspace_expireAt]
    refine Keyspace.sound_update hks key (Slot.expire_sound (hks key) ?_)
    rwa [Nat.add_sub_cancel_left]
  unchanged ks _ hfail := by
    rw [runKeyspace_map, runKeyspace_expireAt] at hfail
    exact absurd (hfail _ rfl) (by simp [IsError, flagReply, Frame.isError])

theorem expireIn_atomic (name : String) (unit : Nat) (args : List Bytes) :
    Atomic (F := F) env.clock (args.take 1) IsError (expireIn env name unit args) := by
  unfold expireIn
  split
  · split
    · exact .ret _
    · next n hn =>
      unfold Engine.instantAfter
      split
      · next hreach => exact expireAt_atomic List.mem_cons_self (by exact_mod_cast hreach)
      · exact .halt
  · exact .ret _

theorem expireAtUnix_atomic (name : String) {toMs : Int → Int}
    (hms : ∀ n, InI64 n → toMs n ≤ i64Max) (args : List Bytes) :
    Atomic (F := F) env.clock (args.take 1) IsError (expireAtUnix env name toMs args) := by
  unfold expireAtUnix
  split
  · split
    · exact .ret _
    · next n hn =>
      refine expireAt_atomic List.mem_cons_self ?_
      have htarget := hms n (inI64_of_parseI64 hn)
      have hfits := env.clock.fits
      unfold instantFromUnixMs Clock.wall
      unfold i64Max at *
      omega
  · exact .ret _

variable (hmem : env.maxmemory = none)

include hmem

theorem rename_atomic (args : List Bytes) :
    Atomic (F := F) env.clock args IsError (rename env args) := by
  unfold rename
  split
  · exact (RocketMem.rename_atomic hmem List.mem_cons_self
      (List.mem_cons_of_mem _ List.mem_cons_self)).reply fun _ => rfl
  · exact .ret _

theorem renamenx_atomic (args : List Bytes) :
    Atomic (F := F) env.clock args IsError (renamenx env args) := by
  unfold renamenx
  split
  · exact (RocketMem.renamenx_atomic hmem List.mem_cons_self
      (List.mem_cons_of_mem _ List.mem_cons_self)).reply fun _ => rfl
  · exact .ret _

end Dispatch

end RocketMem
