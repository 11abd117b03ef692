import RocketMem.Server.LazyExpiry
import RocketMem.Server.LogOrder
import RocketMem.Server.Truncation

namespace RocketMem

open List Function

variable {F : Type} [F64 F]

section

variable {env : Env} {path : Path} {startAt : Nat} {st st' : Store F} {disk disk' : Disk}

/-- The file, from `startAt` on or as far as it reaches, is a log of which a replay cuts nothing. -/
def Disk.Whole (disk : Disk) (path : Path) (startAt : Nat) : Prop :=
  ∀ f, disk path = some f →
    ∃ frames applied, SoundFrom (min startAt f.content.length) f.content frames applied

/-- At most the end of the file is cut off, and that not before `startAt`. -/
def Disk.Cut (disk : Disk) (path : Path) (startAt : Nat) (disk' : Disk) : Prop :=
  disk' = disk ∨ ∃ f f', disk path = some f ∧ disk' = update disk path (some f') ∧
    f'.content <+: f.content ∧ min startAt f.content.length ≤ f'.content.length

theorem Disk.Whole.replay_keeps (h : disk.Whole path startAt)
    {r : IoResult (ReplayStats × Store F) × Disk}
    (hr : replayWithStats .none env path startAt st disk = some r) : r.2 = disk := by
  cases hf : disk path with
  | none =>
    simp only [replayWithStats, RecoveryFaults.none, hf] at hr
    cases hr
    rfl
  | some f =>
    obtain ⟨frames, applied, hsound⟩ := h f hf
    rw [replayWithStats_sound rfl env hf hsound st] at hr
    obtain ⟨_, -, rfl⟩ := Option.map_eq_some_iff.mp hr
    rfl

theorem replayWithStats_again {stats : ReplayStats}
    (h : replayWithStats .none env path startAt st disk = some (.ok (stats, st'), disk')) :
    disk'.Whole path startAt ∧ disk.Cut path startAt disk' ∧
      replayWithStats .none env path startAt st disk' = some (.ok (stats, st'), disk') := by
  cases hf : disk path with
  | none =>
    have hsame := h
    simp only [replayWithStats, RecoveryFaults.none, hf] at hsame
    cases hsame
    refine ⟨fun f hfile => ?_, .inl rfl, h⟩
    rw [hf] at hfile
    cases hfile
  | some f =>
    obtain ⟨f', frames, applied, rfl, hcut, hsound, hstats, hdispatched⟩ :=
      replayWithStats_leaves hf h
    have hreaches := hsound.reaches
    have hstart : min startAt f'.content.length = min startAt f.content.length := by
      have hshorter := hcut.length_le
      omega
    have hf' : update disk path (some f') path = some f' := update_self ..
    rw [← hstart] at hsound hstats
    refine ⟨fun g hg => ?_, .inr ⟨f, f', hf, rfl, hcut, hreaches⟩, ?_⟩
    · rw [hf'] at hg
      cases hg
      exact ⟨frames, applied, hsound⟩
    · rw [replayWithStats_sound rfl env hf' hsound st, hdispatched, hstats]
      rfl

/-- Where `recover` begins its replay, and on which engine, by the snapshot and the log it finds. -/
def recoveryStart (env : Env) (snapshot aof : Option Bytes) : Nat × Store F :=
  match snapshot with
  | none => (0, .new)
  | some bytes =>
    match deserialize env.clock .new bytes with
    | .error _ => (0, .new)
    | .ok (offset, st) => if aof.any (·.length < offset) then (0, .new) else (offset, st)

theorem recoveryStart_fst (env env' : Env) (snapshot aof : Option Bytes) :
    (recoveryStart env' snapshot aof : Nat × Store F).1 =
      (recoveryStart env snapshot aof : Nat × Store F).1 := by
  unfold recoveryStart
  cases snapshot with
  | none => rfl
  | some bytes =>
    by_cases hshort : bytes.length < 8
    · simp only [deserialize, if_pos hshort]
    · simp only [deserialize, if_neg hshort]
      cases (BinCodec.list (entryCodec (F := F))).decode (bytes.drop 8) with
      | none => rfl
      | some r => dsimp only; split <;> rfl

theorem recoveryStart_cut {snapshot : Option Bytes} {b b' : Bytes} (hcut : b'.length ≤ b.length)
    (hreaches : min (recoveryStart env snapshot (some b) : Nat × Store F).1 b.length ≤ b'.length) :
    (recoveryStart env snapshot (some b') : Nat × Store F) =
      recoveryStart env snapshot (some b) := by
  unfold recoveryStart at hreaches ⊢
  cases snapshot with
  | none => rfl
  | some bytes =>
    dsimp only at hreaches ⊢
    cases hload : deserialize env.clock (.new : Store F) bytes with
    | error e => rfl
    | ok loaded =>
      simp only [hload, Option.any_some, decide_eq_true_eq] at hreaches ⊢
      by_cases hshort : b.length < loaded.1
      · rw [if_pos hshort, if_pos (by omega)]
      · rw [if_neg hshort] at hreaches ⊢
        rw [if_neg (by dsimp only at hreaches; omega)]

variable {cfg : Settings} {gen : UInt64}

/-- The position and the engine that the files of a generation give a replay. -/
def Settings.startOf (cfg : Settings) (env : Env) (gen : UInt64) (disk : Disk) : Nat × Store F :=
  recoveryStart env (disk.read (cfg.snapshotFile gen)) (disk.read (cfg.aofFile gen))

theorem recover_none (hgen : generationOf (disk.read cfg.manifest) = .ok gen) :
    (recover .none env cfg disk : Option (IoResult (Store F) × Disk)) =
      (replayWithStats .none env (cfg.aofFile gen) (cfg.startOf env gen disk : Nat × Store F).1
        (cfg.startOf env gen disk).2 disk).map fun r => (r.1.map Prod.snd, r.2) := by
  simp only [recover, RecoveryFaults.none, hgen, Settings.startOf, recoveryStart]
  cases disk.read (cfg.snapshotFile gen) with
  | none => rfl
  | some bytes =>
    dsimp only
    cases deserialize env.clock (.new : Store F) bytes with
    | error e => rfl
    | ok loaded =>
      cases hf : disk (cfg.aofFile gen) with
      | none => simp only [Disk.read, hf, replayWithStats]; rfl
      | some f =>
        simp only [Disk.read, hf, Option.map_some, Option.any_some, decide_eq_true_eq]
        split <;> rfl

/-- What a replay cuts off is not looked at by the next start-up. -/
theorem Disk.Cut.startOf_eq (h : disk.Cut (cfg.aofFile gen)
      (cfg.startOf env gen disk : Nat × Store F).1 disk') :
    (cfg.startOf env gen disk' : Nat × Store F) = cfg.startOf env gen disk := by
  obtain rfl | ⟨f, f', hf, rfl, hcut, hreaches⟩ := h
  · rfl
  · have hother : update disk (cfg.aofFile gen) (some f') (cfg.snapshotFile gen) =
        disk (cfg.snapshotFile gen) := update_of_ne (cfg.aof_ne_snapshot _ _).symm ..
    simp only [Settings.startOf, Disk.read, hf, hother, update_self, Option.map_some] at hreaches ⊢
    exact recoveryStart_cut hcut.length_le hreaches

theorem Disk.Cut.manifest_eq (h : disk.Cut (cfg.aofFile gen) startAt disk') :
    disk'.read cfg.manifest = disk.read cfg.manifest := by
  obtain rfl | ⟨f, f', -, rfl, -⟩ := h
  · rfl
  · rw [Disk.read, update_of_ne (cfg.aofFile_ne_manifest gen).symm, Disk.read]

end

/-- A start-up that succeeds changes nothing for the next one: started again on the files it has
left, the server finds the same store, and no later start-up, at whatever time, cuts off more. Only
the end of the current log is cut off, and that not before the position that the snapshot names. -/
theorem recover_stable (env : Env) (cfg : Settings) (disk disk' : Disk) (st : Store F)
    (h : recover .none env cfg disk = some (.ok st, disk')) :
    recover .none env cfg disk' = some (.ok st, disk') ∧
      (∀ env' (r : IoResult (Store F) × Disk), recover .none env' cfg disk' = some r →
        r.2 = disk') ∧
      ∃ gen, generationOf (disk.read cfg.manifest) = .ok gen ∧
        disk.Cut (cfg.aofFile gen) (cfg.startOf env gen disk : Nat × Store F).1 disk' := by
  cases hgen : generationOf (disk.read cfg.manifest) with
  | error e =>
    simp only [recover, RecoveryFaults.none, hgen] at h
    cases h
  | ok gen =>
    rw [recover_none hgen] at h
    obtain ⟨⟨_ | ⟨stats, st₁⟩, disk₁⟩, hreplay, heq⟩ := Option.map_eq_some_iff.mp h <;> cases heq
    obtain ⟨hwhole, hcut, hagain⟩ := replayWithStats_again hreplay
    have hgen' : generationOf (disk₁.read cfg.manifest) = .ok gen := by rw [hcut.manifest_eq, hgen]
    have hstart := hcut.startOf_eq
    refine ⟨?_, fun env' r hr => ?_, gen, rfl, hcut⟩
    · rw [recover_none hgen', hstart, hagain]
      rfl
    · rw [recover_none hgen'] at hr
      obtain ⟨r', hr', rfl⟩ := Option.map_eq_some_iff.mp hr
      rw [Settings.startOf, recoveryStart_fst env, ← Settings.startOf, hstart] at hr'
      exact hwhole.replay_keeps hr'

def openSettings : Settings := ⟨txt "aof", txt "dump", .always, by decide⟩

/-- A log whose open transaction has been cut off stays as it is. -/
theorem recover_stable_open : recover .none Env.still openSettings cutDisk =
    some (.ok (.new : Store Score), cutDisk) :=
  (recover_stable Env.still openSettings openDisk cutDisk .new rfl).1

end RocketMem
