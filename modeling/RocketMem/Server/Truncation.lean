import RocketMem.Protocol.Decoder
import RocketMem.Server.Recovery

namespace RocketMem

open List Function

variable {F : Type} [F64 F]

theorem DecodesAs.length_le {b : Bytes} {fs : List Frame} (h : DecodesAs b fs)
    (hfits : b.length < 2 ^ 63) : fs.length ≤ b.length := by
  induction h with
  | nil => exact Nat.le_refl 0
  | @cons b f n fs hdecode _ ih =>
    have hpos := decode_pos hfits hdecode
    have hbound : n ≤ b.length := (parse_bound _).1 _ _ _ hdecode
    rw [length_drop] at ih
    have hrest := ih (by omega)
    rw [length_cons]
    omega

theorem DecodesAs.cons_take {b : Bytes} {f : Frame} {k n : Nat} {fs : List Frame}
    (hfits : b.length < 2 ^ 63) (h : decode b = .ok f k)
    (hrest : DecodesAs ((b.drop k).take n) fs) : DecodesAs (b.take (k + n)) (f :: fs) := by
  refine .cons (decode_take hfits h (Nat.le_add_right k n)) ?_
  rw [drop_take, Nat.add_sub_cancel_left]
  exact hrest

theorem TransactionGrouper.feed_mid {g g' : TransactionGrouper} {frame : Frame}
    {released : List Frame} (h : g.feed frame = .ok (released, g'))
    (hmid : g'.isMidTransaction = true) : released = [] := by
  unfold feed at h
  split at h <;> cases h
  · rfl
  · cases hmid
  · rfl
  · cases hmid

section

variable {env : Env}

/-- What the loop makes of bytes: `released` is dispatched, and either nothing is and the good
length stays where it was, or the good length is behind frames that release just this and leave the
grouper between transactions. -/
theorem replayLoop_leaves {fuel : Nat} {g : TransactionGrouper} {buf : Bytes} {consumed : Nat}
    {r r' : Replayed F} (hfits : buf.length < 2 ^ 63)
    (h : replayLoop env fuel g buf consumed r = some r') :
    ∃ released, dispatchEach env released r.store = some r'.store ∧
      r'.commands = r.commands + released.length ∧
      (released = [] ∧ r'.validLen = r.validLen ∨
        ∃ n frames g', n ≤ buf.length ∧ r'.validLen = consumed + n ∧
          DecodesAs (buf.take n) frames ∧ g.feedAll frames = .ok (released, g') ∧
          g'.isMidTransaction = false) := by
  induction fuel generalizing g buf consumed r with
  | zero =>
    cases h
    exact ⟨[], rfl, rfl, .inl ⟨rfl, rfl⟩⟩
  | succ fuel ih =>
    rw [replayLoop] at h
    cases hdecode : decode buf with
    | panic => simp only [hdecode] at h; cases h
    | incomplete | invalid e =>
      simp only [hdecode] at h
      cases h
      exact ⟨[], rfl, rfl, .inl ⟨rfl, rfl⟩⟩
    | ok frame taken =>
      simp only [hdecode] at h
      cases hfeed : g.feed frame with
      | error e =>
        simp only [hfeed] at h
        cases h
        exact ⟨[], rfl, rfl, .inl ⟨rfl, rfl⟩⟩
      | ok fed =>
        obtain ⟨toApply, g₁⟩ := fed
        simp only [hfeed] at h
        cases hdispatch : dispatchEach env toApply r.store with
        | none => simp only [hdispatch] at h; cases h
        | some st =>
          simp only [hdispatch] at h
          have htaken : taken ≤ buf.length := (parse_bound _).1 _ _ _ hdecode
          obtain ⟨later, hlater, hcount, hlen⟩ := ih (by rw [length_drop]; omega) h
          refine ⟨toApply ++ later, ?_, ?_, ?_⟩
          · rw [dispatchEach_append, hdispatch, Option.bind_some, hlater]
          · rw [hcount, length_append, Nat.add_assoc]
          · rcases hlen with ⟨rfl, hvalid⟩ | ⟨n, frames, g', hn, hvalid, hreads, hall, hclosed⟩
            · cases hmid : g₁.isMidTransaction with
              | true =>
                rw [hmid, if_pos rfl] at hvalid
                exact .inl ⟨by rw [g.feed_mid hfeed hmid, nil_append], hvalid⟩
              | false =>
                rw [hmid, if_neg Bool.false_ne_true] at hvalid
                refine .inr ⟨taken, [frame], g₁, htaken, hvalid, ?_, ?_, hmid⟩
                · have hnone : DecodesAs ((buf.drop taken).take 0) [] := .nil
                  exact .cons_take hfits hdecode hnone
                · exact TransactionGrouper.feedAll_cons_iff.mpr ⟨_, _, [], hfeed, rfl, rfl⟩
            · rw [length_drop] at hn
              refine .inr ⟨taken + n, frame :: frames, g', by omega, ?_, ?_, ?_, hclosed⟩
              · rw [hvalid, Nat.add_assoc]
              · exact .cons_take hfits hdecode hreads
              · exact TransactionGrouper.feedAll_cons_iff.mpr ⟨_, _, _, hfeed, hall, rfl⟩

end

theorem File.content_lt (f : File) : f.content.length < 2 ^ 63 := by
  have hfits := f.content_length_le
  unfold i64Max at hfits
  omega

/-- A log that reads, from `start` on, as whole frames which end outside any transaction; `applied`
is what the grouper releases of them. -/
structure SoundFrom (start : Nat) (content : Bytes) (frames applied : List Frame) : Prop where
  reaches : start ≤ content.length
  reads : DecodesAs (content.drop start) frames
  closes : ∃ g, TransactionGrouper.new.feedAll frames = .ok (applied, g) ∧
    g.isMidTransaction = false

theorem replayWithStats_sound {faults : RecoveryFaults} (hread : faults.aof = none) (env : Env)
    {path : Path} {f : File} {startAt : Nat} {frames applied : List Frame} {disk : Disk}
    (hf : disk path = some f)
    (hsound : SoundFrom (min startAt f.content.length) f.content frames applied)
    (st : Store F) :
    replayWithStats faults env path startAt st disk =
      (dispatchEach env applied st).map fun st =>
        (.ok (⟨applied.length, f.content.length - min startAt f.content.length⟩, st), disk) := by
  obtain ⟨g, hfeed, hclosed⟩ := hsound.closes
  have hfits := f.content_lt
  have hfew := hsound.reads.length_le (by rw [length_drop]; omega)
  rw [length_drop] at hfew
  have hstops : StopsAt g [] := .inl decode_nil
  have hfuel : frames.length < f.content.length + 1 := by omega
  obtain ⟨validLen, hvalid, hloop⟩ := replayLoop_readsTo (F := F) env hsound.reads.readsTo hstops
    hfeed hfuel fun _ : TransactionGrouper.new.isMidTransaction = false =>
      (rfl : min startAt f.content.length = min startAt f.content.length)
  have hall : validLen = f.content.length := by
    rw [hvalid hclosed, length_drop, length_nil]
    omega
  subst hall
  simp only [replayWithStats, hread, hf, hloop]
  cases dispatchEach env applied st with
  | none => rfl
  | some st' =>
    simp only [Option.map_some, Nat.zero_add]
    rw [if_neg (Nat.lt_irrefl _)]

theorem replayLoop_sound {env : Env} {content : Bytes} (hfits : content.length < 2 ^ 63)
    {start : Nat} (hstart : start ≤ content.length) {fuel : Nat} {st : Store F} {r : Replayed F}
    (h : replayLoop env fuel .new (content.drop start) start ⟨st, start, 0⟩ = some r) :
    ∃ frames applied, r.validLen ≤ content.length ∧ r.commands = applied.length ∧
      dispatchEach env applied st = some r.store ∧
      SoundFrom start (content.take r.validLen) frames applied := by
  obtain ⟨applied, hdispatched, hcount, hlen⟩ := replayLoop_leaves (by rw [length_drop]; omega) h
  rw [Nat.zero_add] at hcount
  rcases hlen with ⟨rfl, hvalid⟩ | ⟨n, frames, g, hn, hvalid, hreads, hfeed, hclosed⟩
  · dsimp only at hvalid
    subst hvalid
    refine ⟨[], [], hstart, hcount, hdispatched, ?_, ?_, .new, rfl, rfl⟩
    · rw [length_take, min_eq_left hstart]
    · rw [drop_take, Nat.sub_self]
      exact .nil
  · rw [length_drop] at hn
    refine ⟨frames, applied, by omega, hcount, hdispatched, ?_, ?_, g, hfeed, hclosed⟩
    · rw [length_take]
      omega
    · rw [drop_take, hvalid, Nat.add_sub_cancel_left]
      exact hreads

theorem replayWithStats_leaves {faults : RecoveryFaults} {env : Env} {path : Path} {startAt : Nat}
    {st st' : Store F} {disk disk' : Disk} {stats : ReplayStats} {f : File}
    (hf : disk path = some f)
    (h : replayWithStats faults env path startAt st disk = some (.ok (stats, st'), disk')) :
    ∃ f' frames applied, disk' = update disk path (some f') ∧
      f'.content <+: f.content ∧
      SoundFrom (min startAt f.content.length) f'.content frames applied ∧
      stats = ⟨applied.length, f'.content.length - min startAt f.content.length⟩ ∧
      dispatchEach env applied st = some st' := by
  cases hread : faults.aof with
  | some e => simp only [replayWithStats, hread] at h; cases h
  | none =>
    simp only [replayWithStats, hread, hf] at h
    split at h
    · cases h
    · next r hloop =>
      obtain ⟨frames, applied, hvalid, hcount, hdispatched, hsound⟩ :=
        replayLoop_sound f.content_lt (Nat.min_le_right _ _) hloop
      split at h
      · next hcut =>
        split at h
        · cases h
        · cases h
        · cases h
          refine ⟨f.truncate r.validLen, frames, applied, rfl, ?_, ?_, ?_, hdispatched⟩
          · rw [File.content_truncate]
            exact take_prefix _ _
          · rw [File.content_truncate]
            exact hsound
          · rw [File.content_truncate, length_take, min_eq_left hvalid, hcount]
      · next hwhole =>
        cases h
        have hall : r.validLen = f.content.length := by omega
        rw [hall, take_length] at hsound
        refine ⟨f, frames, applied, ?_, prefix_rfl, hsound, ?_, hdispatched⟩
        · rw [← hf, update_eq_self]
        · rw [hall, hcount]

/-- A replay that succeeds leaves a prefix of the log that reaches the offset it began at and ends
there or behind a frame outside any transaction, has dispatched the commands of that prefix in their
order, and a later replay from the same offset, on whatever engine and clock, dispatches the same
commands and cuts nothing off. -/
theorem replay_truncates_stably (faults : RecoveryFaults) (env : Env) (path : Path)
    (startAt : Nat) (st st' : Store F) (disk disk' : Disk) (stats : ReplayStats) (f : File)
    (hf : disk path = some f)
    (h : replayWithStats faults env path startAt st disk = some (.ok (stats, st'), disk')) :
    ∃ f' frames applied, disk' = update disk path (some f') ∧
      f'.content <+: f.content ∧
      SoundFrom (min startAt f.content.length) f'.content frames applied ∧
      applied = commands frames ∧
      stats = ⟨applied.length, f'.content.length - min startAt f.content.length⟩ ∧
      dispatchEach env applied st = some st' ∧
      ∀ (faults₂ : RecoveryFaults) (env₂ : Env) (st₂ : Store F), faults₂.aof = none →
        replayWithStats faults₂ env₂ path startAt st₂ disk' =
          (dispatchEach env₂ applied st₂).map fun st₂' => (.ok (stats, st₂'), disk') := by
  obtain ⟨f', frames, applied, hdisk, hprefix, hsound, hstats, hdispatched⟩ :=
    replayWithStats_leaves hf h
  obtain ⟨g, hfeed, hclosed⟩ := hsound.closes
  refine ⟨f', frames, applied, hdisk, hprefix, hsound,
    TransactionGrouper.released_eq_commands hfeed hclosed, hstats, hdispatched, ?_⟩
  intro faults₂ env₂ st₂ hread
  have hf' : disk' path = some f' := by rw [hdisk, update_self]
  -- the offset is capped at the same place by the shorter file
  have hstart : min startAt f'.content.length = min startAt f.content.length := by
    have hreaches := hsound.reaches
    have hshorter := hprefix.length_le
    omega
  rw [← hstart] at hsound hstats
  rw [replayWithStats_sound hread env₂ hf' hsound st₂, hstats]

def openLog : File where
  durable := logBytes [.command [txt "PING"], markerFrame .multi, .command [txt "PING"]]
  pending := []
  fits := by decide

def openDisk : Disk := update (fun _ => none) (txt "aof") (some openLog)

def cutDisk : Disk := update openDisk (txt "aof") (some (openLog.truncate 14))

theorem replay_truncates_stably_open :
    ∃ applied : List Frame, applied.length = 1 ∧ ∀ (env : Env) (st : Store Score),
      replayWithStats .none env (txt "aof") 0 st cutDisk =
        (dispatchEach env applied st).map fun st' => (.ok (⟨1, 14⟩, st'), cutDisk) := by
  obtain ⟨_, _, applied, -, -, -, -, hstats, -, hagain⟩ := replay_truncates_stably .none
    Env.still (txt "aof") 0 (Store.new : Store Score) .new openDisk cutDisk ⟨1, 14⟩
    openLog rfl rfl
  have hone : 1 = applied.length := congrArg ReplayStats.commands hstats
  exact ⟨applied, hone.symm, fun env st => hagain .none env st rfl⟩

end RocketMem
