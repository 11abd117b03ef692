import RocketMem.Engine.SnapshotLoad
import RocketMem.Server.ReplayTime

namespace RocketMem

open List Option Function

variable {F : Type} [F64 F]

/-- The clocks of a snapshot and its loading count nanoseconds; the file holds milliseconds. -/
def nanosPerMilli : Nat := 1000000

/-- The two clocks as the process reads them: `SystemTime` since the epoch and `Instant`. -/
structure NanoClock where
  wall : Nat
  mono : Nat
  wall_fits : ((wall / nanosPerMilli : Nat) : Int) ≤ i64Max
  mono_fits : (mono : Int) ≤ i64Max

namespace NanoClock

variable (t : NanoClock)

def reading : Clock := ⟨0, t.mono, by simpa using t.mono_fits⟩

def wallMs : Nat := t.wall / nanosPerMilli

/-- `common::unix_ms_from_instant`: each difference is cut to whole milliseconds on its own. -/
def unixMsFromInstant (deadline : Nat) : Int :=
  if t.mono ≤ deadline then
    wrapI64 (wrapI64 t.wallMs + wrapI64 ((deadline - t.mono) / nanosPerMilli : Nat))
  else wrapI64 (wrapI64 t.wallMs - wrapI64 ((t.mono - deadline) / nanosPerMilli : Nat))

/-- `common::instant_from_unix_ms`: the target is compared with the uncut wall clock. -/
def instantFromUnixMs (target : Int) : Nat := t.mono + (target.toNat * nanosPerMilli - t.wall)

def serializeEntry (env : Env) (e : Bytes × Value F × Option Nat) :
    Bytes × SerializableValue F × Option Int :=
  (e.1, e.2.1.toSerializable env, e.2.2.map t.unixMsFromInstant)

def serialize (env : Env) (st : Store F) (offset : Nat) : Bytes :=
  leBytes 8 offset ++ (BinCodec.list entryCodec).encode
    ((st.snapshotEntries { env with clock := t.reading }).map (t.serializeEntry env))

def loadEntry (e : Bytes × SerializableValue F × Option Int) :
    Option (Bytes × Value F × Option Nat) :=
  match e.2.2 with
  | none => some (e.1, e.2.1.toValue, none)
  | some ms =>
    if ms ≤ t.wallMs then none else some (e.1, e.2.1.toValue, some (t.instantFromUnixMs ms))

def deserialize (st : Store F) (b : Bytes) : Except SnapshotError (Nat × Store F) :=
  if b.length < 8 then .error .tooShort
  else match (BinCodec.list (entryCodec (F := F))).decode (b.drop 8) with
    | none => .error .decode
    | some (entries, _) =>
      .ok (ofLeBytes (b.take 8), st.loadSnapshotEntries t.mono (entries.filterMap t.loadEntry))

end NanoClock

section

variable {t : NanoClock} {c : Clock}

def Entry.inNanos (e : Entry F) : Entry F :=
  { e with expiresAt := e.expiresAt.map (· * nanosPerMilli) }

def Shard.inNanos (s : Shard F) : Shard F :=
  { s with map := s.map.filterMapValues fun _ e => some e.inNanos }

theorem Shard.lookup_inNanos (s : Shard F) (k : Bytes) :
    s.inNanos.map.lookup k = (s.map.lookup k).map Entry.inNanos := by
  rw [inNanos, HashMap.lookup_filterMapValues]
  cases s.map.lookup k <;> rfl

def Store.inNanos (st : Store F) : Store F where
  shards i := (st.shards i).inNanos
  tick := st.tick
  routed i k hk := by
    refine st.routed i k ?_
    obtain ⟨e, he⟩ := Finmap.mem_iff.mp hk
    rw [Shard.lookup_inNanos, map_eq_some_iff] at he
    obtain ⟨e', he', -⟩ := he
    exact Finmap.mem_iff.mpr ⟨e', he'⟩

theorem Entry.slot_inNanos {c : Clock} (hboot : c.boot = 0) (h : t.mono = c.mono * nanosPerMilli)
    (e : Entry F) : e.inNanos.slot t.reading =
      (e.slot c).map fun p => (p.1, p.2.map (· * nanosPerMilli)) := by
  obtain ⟨value, _ | deadline, accessed⟩ := e
  · rfl
  · have hle : deadline * nanosPerMilli ≤ t.mono ↔ deadline ≤ c.mono := by
      rw [h]
      exact Nat.mul_le_mul_right_iff (by decide)
    by_cases hd : deadline ≤ c.mono
    · simp [slot, inNanos, isExpired, NanoClock.reading, hle, hd]
    · simp [slot, inNanos, isExpired, NanoClock.reading, hle, hd, hboot]

theorem Store.live_inNanos {c : Clock} (hboot : c.boot = 0)
    (h : t.mono = c.mono * nanosPerMilli) (st : Store F) (k : Bytes) :
    st.inNanos.live t.reading k =
      (st.live c k).map fun p => (p.1, p.2.map (· * nanosPerMilli)) := by
  have hlookup := (st.shardFor k).lookup_inNanos k
  change (((st.shardFor k).inNanos.map.lookup k).bind (Entry.slot t.reading)) =
    (((st.shardFor k).map.lookup k).bind (Entry.slot c)).map _
  rw [hlookup]
  cases (st.shardFor k).map.lookup k with
  | none => rfl
  | some e => exact e.slot_inNanos hboot h

end

section

variable {t : NanoClock} {d d' : Nat}

def Near (d d' : Nat) : Prop := d ≤ d' + nanosPerMilli ∧ d' ≤ d + nanosPerMilli

def NanoClock.reload (t : NanoClock) (deadline : Nat) : Option Nat :=
  if t.unixMsFromInstant deadline ≤ t.wallMs then none
  else some (t.instantFromUnixMs (t.unixMsFromInstant deadline))

/-- The deadlines that a snapshot taken now carries over: a whole millisecond is left, the Unix
time is an `i64`, and the two cut fractions make no more than a millisecond. -/
def NanoClock.Carries (t : NanoClock) (deadline : Nat) : Prop :=
  nanosPerMilli ≤ deadline - t.mono ∧
    ((t.wallMs + (deadline - t.mono) / nanosPerMilli : Nat) : Int) ≤ i64Max ∧
    (deadline - t.mono) % nanosPerMilli + t.wall % nanosPerMilli ≤ nanosPerMilli

instance NanoClock.decidableCarries (t : NanoClock) (deadline : Nat) :
    Decidable (t.Carries deadline) :=
  inferInstanceAs (Decidable (_ ∧ _ ∧ _))

theorem wrapI64_eq_sub (i : Int) : ∃ q, wrapI64 i = i - 2 ^ 64 * q :=
  ⟨(i - i.bmod (2 ^ 64)) / 2 ^ 64, by
    have hdvd : ((2 ^ 64 : Nat) : Int) ∣ i - i.bmod (2 ^ 64) := Int.dvd_self_sub_bmod
    have hmul := Int.mul_ediv_cancel' hdvd
    unfold wrapI64
    norm_cast at hmul ⊢
    omega⟩

theorem NanoClock.unixMsFromInstant_eq_sub (hd : t.mono < d) :
    ∃ q, t.unixMsFromInstant d = (t.wallMs + (d - t.mono) / nanosPerMilli : Nat) - 2 ^ 64 * q := by
  obtain ⟨q, hq⟩ := wrapI64_eq_sub t.wallMs
  obtain ⟨r, hr⟩ := wrapI64_eq_sub ((d - t.mono) / nanosPerMilli : Nat)
  obtain ⟨s, hs⟩ := wrapI64_eq_sub (wrapI64 t.wallMs + wrapI64 ((d - t.mono) / nanosPerMilli : Nat))
  refine ⟨q + r + s, ?_⟩
  rw [unixMsFromInstant, if_pos hd.le, hs, hq, hr]
  omega

theorem NanoClock.unixMsFromInstant_inI64 (t : NanoClock) (d : Nat) :
    InI64 (t.unixMsFromInstant d) := by
  unfold unixMsFromInstant
  split <;> exact wrapI64_inI64 _

theorem NanoClock.lt_of_reload (h : t.reload d = some d') : t.mono < d' := by
  unfold reload at h
  split at h
  · cases h
  · next hlate =>
    cases h
    unfold instantFromUnixMs
    unfold wallMs nanosPerMilli at *
    omega

theorem NanoClock.reload_of_carries (hd : t.mono < d) (h : t.Carries d) :
    ∃ d', t.reload d = some d' ∧ Near d d' := by
  obtain ⟨hleft, hmax, hcut⟩ := h
  obtain ⟨q, hq⟩ := t.unixMsFromInstant_eq_sub hd
  have hin := t.unixMsFromInstant_inI64 d
  have hms : t.unixMsFromInstant d = (t.wallMs + (d - t.mono) / nanosPerMilli : Nat) := by
    have hnonneg : (0 : Int) ≤ (t.wallMs + (d - t.mono) / nanosPerMilli : Nat) :=
      Int.natCast_nonneg _
    unfold InI64 i64Min i64Max at hin
    unfold i64Max at hmax
    omega
  have hlate : ¬ t.unixMsFromInstant d ≤ t.wallMs := by
    unfold nanosPerMilli at hleft hms
    omega
  refine ⟨_, if_neg hlate, ?_⟩
  rw [hms, instantFromUnixMs, Int.toNat_natCast]
  unfold wallMs nanosPerMilli at *
  unfold Near nanosPerMilli
  omega

theorem NanoClock.carries_of_reload (hd : t.mono < d) (h : t.reload d = some d')
    (hnear : Near d d') : t.Carries d := by
  obtain ⟨q, hq⟩ := t.unixMsFromInstant_eq_sub hd
  have hin := t.unixMsFromInstant_inI64 d
  unfold reload at h
  split at h
  · cases h
  · next hlate =>
    cases h
    unfold Near instantFromUnixMs nanosPerMilli at hnear
    unfold wallMs nanosPerMilli at hq hlate
    unfold InI64 i64Min i64Max at hin
    -- a wrapped time is off by 2 ^ 64 milliseconds, so none was wrapped
    have hq0 : q = 0 := by omega
    subst hq0
    unfold NanoClock.Carries wallMs nanosPerMilli i64Max
    omega

end

section

variable {t : NanoClock}

def Slot.reload (t : NanoClock) (s : Slot F) : Slot F :=
  s.bind fun p => p.2.elim (some (p.1, none)) fun d => (t.reload d).map fun d' => (p.1, some d')

def NanoClock.reloadEntry (t : NanoClock) (e : Bytes × Value F × Option Nat) :
    Option (Bytes × Value F × Option Nat) :=
  (Slot.reload t (some e.2)).map fun p => (e.1, p)

theorem NanoClock.loadEntry_serializeEntry (t : NanoClock) (env : Env)
    (e : Bytes × Value F × Option Nat) :
    t.loadEntry (t.serializeEntry env e) = t.reloadEntry e := by
  obtain ⟨k, v, _ | d⟩ := e
  · simp [loadEntry, serializeEntry, reloadEntry, Slot.reload, v.toValue_toSerializable env]
  · simp only [loadEntry, serializeEntry, reloadEntry, Slot.reload,
      v.toValue_toSerializable env, map_some, bind_some, elim_some,
      reload]
    split <;> rfl

theorem NanoClock.fst_of_reloadEntry {e e' : Bytes × Value F × Option Nat}
    (h : t.reloadEntry e = some e') : e'.1 = e.1 := by
  obtain ⟨p, -, rfl⟩ := map_eq_some_iff.mp h
  rfl

theorem NanoClock.reloadEntry_ahead {e e' : Bytes × Value F × Option Nat}
    (h : t.reloadEntry e = some e') {d' : Nat} (hd : e'.2.2 = some d') : t.mono < d' := by
  obtain ⟨p, hp, rfl⟩ := map_eq_some_iff.mp h
  obtain ⟨k, v, _ | d⟩ := e
  · cases hp
    cases hd
  · obtain ⟨d'', hd'', rfl⟩ := map_eq_some_iff.mp hp
    cases hd
    exact lt_of_reload hd''

theorem NanoClock.nodup_reloaded {entries : List (Bytes × Value F × Option Nat)}
    (h : (entries.map Prod.fst).Nodup) :
    ((entries.filterMap t.reloadEntry).map Prod.fst).Nodup := by
  have hsub : ((entries.filterMap t.reloadEntry).map Prod.fst).Sublist (entries.map Prod.fst) := by
    clear h
    induction entries with
    | nil => exact List.Sublist.refl _
    | cons e entries ih =>
      cases he : t.reloadEntry e with
      | none =>
        rw [filterMap_cons_none he]
        exact ih.cons e.1
      | some e' =>
        rw [filterMap_cons_some he, map_cons, map_cons, fst_of_reloadEntry he]
        exact ih.cons_cons e.1
  exact hsub.nodup h

theorem Store.live_reloaded {ks : Keyspace F} {entries : List (Bytes × Value F × Option Nat)}
    (hcap : Captures t.reading (fun _ => True) ks entries) (st : Store F) (k : Bytes) :
    (st.loadSnapshotEntries t.mono (entries.filterMap t.reloadEntry)).live t.reading k =
      (ks k).reload t := by
  have hahead : ∀ e ∈ entries.filterMap t.reloadEntry, ∀ d, e.2.2 = some d →
      t.reading.mono < d := by
    intro e he d hd
    obtain ⟨e₀, -, he₀⟩ := mem_filterMap.mp he
    exact NanoClock.reloadEntry_ahead he₀ hd
  obtain ⟨hin, hout⟩ :=
    live_loadSnapshotEntries_apply (NanoClock.nodup_reloaded hcap.nodup) hahead st k
  have hzero (o : Option Nat) : o.map (t.reading.boot + ·) = o := by
    cases o <;> simp [NanoClock.reading]
  by_cases hk : k ∈ entries.map Prod.fst
  · obtain ⟨e, he, rfl⟩ := mem_map.mp hk
    rw [hcap.slot e he, hzero]
    cases hre : t.reloadEntry e with
    | none =>
      have hgone : e.1 ∉ (entries.filterMap t.reloadEntry).map Prod.fst := by
        intro hmem
        obtain ⟨e', he', hkey⟩ := mem_map.mp hmem
        obtain ⟨e₀, he₀, hre₀⟩ := mem_filterMap.mp he'
        have hsame : e₀ = e := inj_on_of_nodup_map hcap.nodup he₀ he
          ((NanoClock.fst_of_reloadEntry hre₀).symm.trans hkey)
        rw [hsame, hre] at hre₀
        cases hre₀
      exact (hout hgone).trans (map_eq_none_iff.mp hre).symm
    | some e' =>
      have hfound := hin e' (mem_filterMap.mpr ⟨e, he, hre⟩) (NanoClock.fst_of_reloadEntry hre)
      rw [hzero] at hfound
      obtain ⟨p, hp, rfl⟩ := map_eq_some_iff.mp hre
      exact hfound.trans hp.symm
  · have hgone : k ∉ (entries.filterMap t.reloadEntry).map Prod.fst := by
      intro hmem
      obtain ⟨e', he', hkey⟩ := mem_map.mp hmem
      obtain ⟨e₀, he₀, hre₀⟩ := mem_filterMap.mp he'
      rw [← hkey, NanoClock.fst_of_reloadEntry hre₀] at hk
      exact hk (mem_map_of_mem he₀)
    rw [hcap.complete k trivial hk]
    exact hout hgone

theorem NanoClock.deserialize_snapshotOf (t : NanoClock) (env : Env) {ks : Keyspace F}
    {entries : List (Bytes × Value F × Option Nat)}
    (hcap : Captures t.reading (fun _ => True) ks entries) (st₀ : Store F) {offset : Nat}
    (hoffset : offset < 256 ^ 8)
    (hsize : ((snapshotOf env t.unixMsFromInstant offset entries).length : Int) ≤ i64Max) :
    ∃ loaded, t.deserialize st₀ (snapshotOf env t.unixMsFromInstant offset entries) =
        .ok (offset, loaded) ∧ ∀ k, loaded.live t.reading k = (ks k).reload t := by
  have hback : (entries.map (t.serializeEntry env)).filterMap t.loadEntry =
      entries.filterMap t.reloadEntry := by
    rw [filterMap_map]
    exact filterMap_congr fun e _ => t.loadEntry_serializeEntry env e
  obtain ⟨hlong, hdecode⟩ := snapshotOf_decodes env t.unixMsFromInstant_inI64 entries hsize
  refine ⟨_, ?_, Store.live_reloaded hcap st₀⟩
  rw [deserialize, if_neg hlong, hdecode, header_snapshotOf _ _ hoffset]
  exact congrArg (fun l => Except.ok (offset, st₀.loadSnapshotEntries t.mono l)) hback

theorem NanoClock.deserialize_serialize (t : NanoClock) (env : Env) (st st₀ : Store F)
    {offset : Nat} (hoffset : offset < 256 ^ 8)
    (hsize : ((t.serialize env st offset).length : Int) ≤ i64Max) :
    ∃ loaded, t.deserialize st₀ (t.serialize env st offset) = .ok (offset, loaded) ∧
      ∀ k, loaded.live t.reading k = (st.live t.reading k).reload t :=
  t.deserialize_snapshotOf env (st.captures { env with clock := t.reading }) st₀ hoffset hsize

/-- The clocks stand at whole milliseconds, at those that `c` counts. -/
def NanoClock.Shows (t : NanoClock) (c : Clock) : Prop :=
  t.wall = c.wall * nanosPerMilli ∧ t.mono = c.mono * nanosPerMilli

/-- The deadline of a slot as the `Instant` that it stands for. -/
def Slot.onInstants (c : Clock) (s : Slot F) : Slot F :=
  s.map fun p => (p.1, p.2.map fun d => (d - c.boot) * nanosPerMilli)

section

variable {c : Clock}

theorem wholeMillis (n : Nat) : n * nanosPerMilli / nanosPerMilli = n :=
  Nat.mul_div_cancel _ (by simp [nanosPerMilli])

theorem NanoClock.Shows.unixMs (h : t.Shows c) {deadline : Nat} (hd : c.mono ≤ deadline) :
    t.unixMsFromInstant (deadline * nanosPerMilli) = RocketMem.unixMsFromInstant c deadline := by
  obtain ⟨hwall, hmono⟩ := h
  have hleft : (deadline * nanosPerMilli - t.mono) / nanosPerMilli = deadline - c.mono := by
    rw [hmono, ← Nat.sub_mul, wholeMillis]
  have hms : t.wallMs = c.wall := by rw [wallMs, hwall, wholeMillis]
  have hle : t.mono ≤ deadline * nanosPerMilli := hmono.trans_le (Nat.mul_le_mul_right _ hd)
  rw [unixMsFromInstant, if_pos hle, hleft, hms, RocketMem.unixMsFromInstant, if_pos hd,
    Nat.cast_sub hd]

theorem NanoClock.Shows.reload (h : t.Shows c) {d : Nat} (hd : c.wall < d)
    (hmax : (d : Int) ≤ i64Max) :
    t.reload ((d - c.boot) * nanosPerMilli) = some ((d - c.boot) * nanosPerMilli) := by
  have hboot : c.boot + (d - c.boot) = d := by
    unfold Clock.wall at hd
    omega
  have hunix : t.unixMsFromInstant ((d - c.boot) * nanosPerMilli) = d := by
    rw [h.unixMs (by unfold Clock.wall at hd; omega),
      unixMsFromInstant_of_le (by unfold Clock.wall at hd; omega) (by rwa [hboot]), hboot]
  obtain ⟨hwall, hmono⟩ := h
  rw [NanoClock.reload, hunix, if_neg, NanoClock.instantFromUnixMs, hwall, hmono]
  · unfold Clock.wall nanosPerMilli at *
    simp only [Int.toNat_natCast, Option.some.injEq]
    omega
  · rw [wallMs, hwall, wholeMillis]
    omega

variable {ks : Keyspace F} {entries : List (Bytes × Value F × Option Nat)}

theorem Captures.inNanos (h : Captures c (fun _ => True) ks entries) :
    Captures t.reading (fun _ => True) (fun k => (ks k).onInstants c)
      (entries.map fun e => (e.1, e.2.1, e.2.2.map (· * nanosPerMilli))) := by
  have hkeys : (entries.map fun e => (e.1, e.2.1, e.2.2.map (· * nanosPerMilli))).map Prod.fst =
      entries.map Prod.fst := by
    rw [List.map_map]
    rfl
  refine ⟨hkeys ▸ h.nodup, fun _ _ => trivial, fun e he => ?_, fun k _ hk => ?_⟩
  · obtain ⟨⟨k, v, d⟩, hmem, rfl⟩ := mem_map.mp he
    rw [h.slot _ hmem]
    cases d <;> simp [Slot.onInstants, NanoClock.reading]
  · rw [hkeys] at hk
    rw [h.complete k trivial hk]
    rfl

end

/-- The same value, under deadlines at most a millisecond apart. -/
def Slot.Close : Slot F → Slot F → Prop
  | none, none => True
  | some (v, none), some (v', none) => v = v'
  | some (v, some d), some (v', some d') => v = v' ∧ Near d d'
  | _, _ => False

theorem Slot.close_reload_iff {s : Slot F} (hahead : ∀ v d, s = some (v, some d) → t.mono < d) :
    s.Close (s.reload t) ↔ ∀ v d, s = some (v, some d) → t.Carries d := by
  obtain _ | ⟨v, _ | d⟩ := s
  · exact ⟨fun _ v d h => (by cases h), fun _ => trivial⟩
  · exact ⟨fun _ v d h => (by cases h), fun _ => rfl⟩
  · have hd := hahead v d rfl
    have hreload : reload t (some (v, some d)) = (t.reload d).map fun d' => (v, some d') := rfl
    rw [hreload]
    constructor
    · intro h v' d'' heq
      cases heq
      cases hre : t.reload d with
      | none =>
        rw [hre] at h
        exact h.elim
      | some d' =>
        rw [hre] at h
        exact NanoClock.carries_of_reload hd hre h.2
    · intro h
      obtain ⟨d', hre, hnear⟩ := NanoClock.reload_of_carries hd (h v d rfl)
      rw [hre]
      exact ⟨rfl, hnear⟩

theorem Store.live_ahead (st : Store F) {k : Bytes} {v : Value F} {d : Nat}
    (h : st.live t.reading k = some (v, some d)) : t.mono < d := by
  have hslot : ((st.shardFor k).map.lookup k).bind (Entry.slot t.reading) = some (v, some d) := h
  obtain ⟨e, -, he⟩ := bind_eq_some_iff.mp hslot
  obtain ⟨value, _ | deadline, accessed⟩ := e
  · simp [Entry.slot, Entry.isExpired] at he
  · unfold Entry.slot at he
    split at he
    · cases he
    · next hlive =>
      have hlater : ¬ deadline ≤ t.mono := fun hle => hlive (decide_eq_true hle)
      have hd : 0 + deadline = d := some.inj (congrArg Prod.snd (some.inj he))
      omega

/-- Writing a snapshot of `st` and reading it back into `st₀` at the same moment gives the header's
position and the same live keys, with equal values and deadlines within a millisecond. -/
def RoundTrips (t : NanoClock) (env : Env) (st st₀ : Store F) (offset : Nat) : Prop :=
  ∃ loaded, t.deserialize st₀ (t.serialize env st offset) = .ok (offset, loaded) ∧
    ∀ k, (st.live t.reading k).Close (loaded.live t.reading k)

/-- A snapshot round trip is right exactly when each deadline is one that is carried over. -/
theorem roundTrips_iff (t : NanoClock) (env : Env) (st st₀ : Store F) {offset : Nat}
    (hoffset : offset < 256 ^ 8) (hsize : ((t.serialize env st offset).length : Int) ≤ i64Max) :
    RoundTrips t env st st₀ offset ↔
      ∀ k v d, st.live t.reading k = some (v, some d) → t.Carries d := by
  obtain ⟨loaded, hload, hlive⟩ := t.deserialize_serialize env st st₀ hoffset hsize
  have hclose (k : Bytes) := Slot.close_reload_iff (s := st.live t.reading k)
    fun _ _ => st.live_ahead
  constructor
  · rintro ⟨loaded', hload', hall⟩ k
    rw [hload] at hload'
    cases hload'
    have h := hall k
    rw [hlive k] at h
    exact (hclose k).mp h
  · intro h
    refine ⟨loaded, hload, fun k => ?_⟩
    rw [hlive k]
    exact (hclose k).mpr (h k)

end

variable {c : Clock} {ks : Keyspace F} {entries : List (Bytes × Value F × Option Nat)}

theorem Captures.eq_singleton (h : Captures c (fun _ => True) ks entries)
    {e : Bytes × Value F × Option Nat} (hboot : c.boot = 0)
    (hks : ks = update (fun _ => none) e.1 (some e.2)) : entries = [e] := by
  have honly : ∀ e' ∈ entries, e' = e := by
    intro e' he'
    have hslot := h.slot e' he'
    have hzero : e'.2.2.map (c.boot + ·) = e'.2.2 := by cases e'.2.2 <;> simp [hboot]
    rw [hks, hzero, update_apply] at hslot
    split at hslot
    · next hkey => exact Prod.ext hkey (some.inj hslot).symm
    · cases hslot
  have hmem : e ∈ entries := by
    by_contra hnot
    have hnone := h.complete e.1 trivial fun hmem => by
      obtain ⟨e', he', -⟩ := mem_map.mp hmem
      exact hnot (honly e' he' ▸ he')
    rw [hks, update_self] at hnone
    cases hnone
  have hrep := eq_replicate_of_mem honly
  have hone : entries.length = 1 := by
    have hnodup := h.nodup.of_map
    rw [hrep, nodup_replicate] at hnodup
    have hpos := length_pos_of_mem hmem
    omega
  rw [hrep, hone]
  rfl

def firstMilli : Clock := ⟨0, 1, by decide⟩

def firstNanos : NanoClock := ⟨nanosPerMilli, nanosPerMilli, by decide, by decide⟩

def expiringStore (words : List Bytes) : Store Score :=
  (runEngine (Env.plain firstMilli)
    (dispatch (Env.plain firstMilli) (setFrame (txt "k") (txt "v") words)) Store.new).2

theorem live_expiringStore {words : List Bytes} {ms : Int}
    (httl : Dispatch.setTtl words = .ok (some ms)) (hms : 0 < ms)
    (happ : Dispatch.setApplies words (none : Slot Score) = true) :
    (expiringStore words).inNanos.live firstNanos.reading =
      update (fun _ => none) (txt "k")
        (some (.string (txt "v"), some ((1 + ms.toNat) * nanosPerMilli))) := by
  have hnew : (Store.new : Store Score).live firstMilli = fun _ => none :=
    funext fun k => Store.live_new 0 k
  let start : Leader Score := ⟨Store.new, []⟩
  have hlive : (expiringStore words).live firstMilli = update
      ((Store.new : Store Score).live firstMilli) (txt "k")
      (Dispatch.setSlot firstMilli (txt "v") (some ms)) :=
    (start.step_setFrame (rfl : (Env.plain firstMilli).maxmemory = none) (txt "k") (txt "v") httl
      ((congrArg (Dispatch.setApplies words) (congrFun hnew (txt "k"))).trans happ)).1
  have hslot : Dispatch.setSlot firstMilli (txt "v") (some ms) =
      (some (.string (txt "v"), some (1 + ms.toNat)) : Slot Score) := by
    have hlate : ¬ 1 + ms.toNat ≤ 1 := by omega
    exact (Slot.expire_some ..).trans (if_neg hlate)
  funext k
  rw [Store.live_inNanos (c := firstMilli) rfl rfl, hlive, hnew, hslot, update_apply, update_apply]
  split <;> rfl

theorem serialize_expiringStore {words : List Bytes} {ms : Int}
    (httl : Dispatch.setTtl words = .ok (some ms)) (hms : 0 < ms)
    (happ : Dispatch.setApplies words (none : Slot Score) = true) :
    firstNanos.serialize Env.still (expiringStore words).inNanos 7 =
      leBytes 8 7 ++ (BinCodec.list (entryCodec (F := Score))).encode
        [(txt "k", .string (txt "v"),
          some (firstNanos.unixMsFromInstant ((1 + ms.toNat) * nanosPerMilli)))] := by
  have hentries := ((expiringStore words).inNanos.captures
    { Env.still with clock := firstNanos.reading }).eq_singleton
    (e := (txt "k", .string (txt "v"), some ((1 + ms.toNat) * nanosPerMilli))) rfl
    (live_expiringStore httl hms happ)
  rw [NanoClock.serialize, hentries]
  rfl

theorem roundTrips_short :
    RoundTrips firstNanos Env.still (expiringStore shortWords).inNanos Store.new 7 := by
  have hlive := live_expiringStore setTtl_shortWords (by decide) (by decide)
  refine (roundTrips_iff firstNanos Env.still (expiringStore shortWords).inNanos Store.new
    (by decide) ?_).mpr ?_
  · rw [serialize_expiringStore setTtl_shortWords (by decide) (by decide)]
    decide
  · intro k v d hk
    rw [hlive, update_apply] at hk
    split at hk
    · cases hk
      decide
    · cases hk

def longestWords : List Bytes := ["PX", "9223372036854775807"].map txt

theorem setTtl_longestWords : Dispatch.setTtl longestWords = .ok (some 9223372036854775807) := by
  have hex : Dispatch.flagValue "EX" longestWords = none := by decide
  have hpx : Dispatch.flagValue "PX" longestWords = some (some 9223372036854775807) := by decide
  rw [Dispatch.setTtl, hex, hpx]

/-- The longest time to live that `SET` takes wraps around when it is written, and the key is lost
when it is read back. -/
theorem roundTrip_loses_longest :
    ¬ RoundTrips firstNanos Env.still (expiringStore longestWords).inNanos Store.new 7 := by
  have hlive := live_expiringStore setTtl_longestWords (by decide) (by decide)
  have hser := serialize_expiringStore setTtl_longestWords (by decide) (by decide)
  obtain ⟨loaded, hload, hslots⟩ := firstNanos.deserialize_serialize Env.still
    (expiringStore longestWords).inNanos Store.new (by decide : 7 < 256 ^ 8)
    (by rw [hser]; decide)
  rintro ⟨loaded', hload', hclose⟩
  rw [hload] at hload'
  cases hload'
  have hk := hclose (txt "k")
  rw [hslots, hlive, update_self] at hk
  exact hk

end RocketMem
