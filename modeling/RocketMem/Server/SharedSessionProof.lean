import RocketMem.Server.SharedSession

namespace RocketMem

open Option Finset Bool

namespace SharedTx

def Matched (s : SharedTx) : Prop := s.clearing = ∅ → s.flag = s.tx.isQueuing

def Acks (i : Nat) (s : SharedTx) : Prop :=
  s.opener = some i → s.tx.isQueuing = true → s.flag = true

structure Coherent (s : SharedTx) : Prop where
  matched : s.holder = none → s.Matched
  closed : ∀ i ∈ s.clearing, s.tx = .idle
  flagged : s.acknowledged = true → s.tx.isQueuing = true → s.flag = true
  clearing : s.clearing ⊆ s.ending
  ending : s.ending ⊆ s.inFlight
  holder : ∀ i, s.holder = some i → i ∈ s.inFlight
  promised : ∀ i ∈ s.promised, s.tx.isQueuing = true ∧ s.acknowledged = true ∧ s.ending = ∅

structure Yields (i : Nat) (s s' : SharedTx) : Prop where
  inFlight : i ∈ s'.inFlight ↔ i ∈ s.inFlight
  ending : i ∈ s'.ending ↔ i ∈ s.ending
  clearing : i ∈ s'.clearing ↔ i ∈ s.clearing
  holder : s'.holder = some i ↔ s.holder = some i
  promised : i ∈ s'.promised → i ∈ s.promised
  acks : s.Acks i → s'.Acks i
  held : s.holder = some i → s'.tx = s.tx ∧ s'.clearing ⊆ s.clearing ∧ (s.Matched → s'.Matched)

end SharedTx

open SharedTx

def TxOp.Faithful (i : Nat) (s : SharedTx) : TxOp → Prop
  | .gated true _ => i ∉ s.promised
  | .leave frame refusal reply => i ∈ s.promised → refusal = some reply ∨ queueReply frame = some reply
  | _ => True

def txDiscipline : Discipline TxOp SharedTx where
  inv := Coherent
  rely := Yields
  asserts i o s := o.Faithful i s
  absent _ _ := True
  rely_refl _ _ :=
    ⟨Iff.rfl, Iff.rfl, Iff.rfl, Iff.rfl, id, id, fun _ => ⟨rfl, Finset.Subset.refl _, id⟩⟩
  rely_trans h h' :=
    ⟨h'.inFlight.trans h.inFlight, h'.ending.trans h.ending, h'.clearing.trans h.clearing,
      h'.holder.trans h.holder, h.promised ∘ h'.promised, h'.acks ∘ h.acks, fun hs => by
        obtain ⟨htx, hsub, hmatched⟩ := h.held hs
        obtain ⟨htx', hsub', hmatched'⟩ := h'.held (h.holder.mpr hs)
        exact ⟨htx'.trans htx, hsub'.trans hsub, hmatched' ∘ hmatched⟩⟩
  absent_stable _ _ _ := trivial

def Orderly (_ : Nat) (_ : TxCircumstances) (o : TxOp) (s : SharedTx) : Prop :=
  match o with
  | .open => s.clearing = ∅
  | _ => True

structure At (ending held clearing promised : Bool) (i : Nat) (s : SharedTx) : Prop where
  inFlight : i ∈ s.inFlight
  ending : i ∈ s.ending ↔ ending = true
  held : s.holder = some i ↔ held = true
  clearing : i ∈ s.clearing ↔ clearing = true
  promised : promised = false → i ∉ s.promised
  acks : s.Acks i

def LockedAt (ending clearing promised : Bool) (i : Nat) (s : SharedTx) : Prop :=
  At ending true clearing promised i s ∧ s.Matched

section

variable {i : Nat} {e h c m : Bool} {s s' : SharedTx}

theorem At.stable : txDiscipline.Stable i (At e h c m i) := by
  intro s s' hy _ hs
  exact ⟨hy.inFlight.mpr hs.inFlight, hy.ending.trans hs.ending, hy.holder.trans hs.held,
    hy.clearing.trans hs.clearing, fun hm hin => hs.promised hm (hy.promised hin), hy.acks hs.acks⟩

theorem LockedAt.stable : txDiscipline.Stable i (LockedAt e c m i) := by
  intro s s' hy hinv hs
  exact ⟨At.stable s s' hy hinv hs.1, (hy.held (hs.1.held.mpr rfl)).2.2 hs.2⟩

theorem At.not_held (hs : At e false c m i s) : s.holder ≠ some i := fun h => by
  cases hs.held.mp h

theorem At.not_clearing (hs : At e h false m i s) : i ∉ s.clearing := fun h => by
  cases hs.clearing.mp h

theorem SharedTx.Coherent.keeps (hinv : Coherent s) : txDiscipline.Keeps i s s :=
  ⟨hinv, fun j _ => txDiscipline.rely_refl j s⟩

theorem not_holder {j : Nat} (hheld : s.holder = some i) (hj : j ≠ i) : s.holder ≠ some j := by
  rw [hheld]
  exact fun h => hj (some.inj h).symm

theorem yields_of_held {j : Nat} (hheld : s.holder = some i) (hj : j ≠ i)
    (hflight : s'.inFlight = s.inFlight) (hending : s'.ending = s.ending)
    (hclearing : j ∈ s'.clearing ↔ j ∈ s.clearing) (hholder : s'.holder ≠ some j)
    (hpromised : s'.promised = s.promised) (hacks : s.Acks j → s'.Acks j) : Yields j s s' := by
  have hnot := not_holder hheld hj
  exact ⟨by rw [hflight], by rw [hending], hclearing, iff_of_false hholder hnot,
    by rw [hpromised]; exact id, hacks, fun h => absurd h hnot⟩

abbrev TxTriple {α : Type} (i : Nat) (P : SharedTx → Prop) (p : TxProgram α)
    (Q : α → SharedTx → Prop) : Prop :=
  txDiscipline.Triple txMachine Orderly i P p Q

theorem lock_triple :
    TxTriple i (At e false c m i) (TxProgram.perform .lock) fun _ => LockedAt e c m i := by
  refine .perform At.stable (fun _ => LockedAt.stable) (fun _ _ _ => trivial) ?_
  intro s hinv hs x r s' _ hx
  have hfree : s.holder = none := by
    by_contra hheld
    have hwait : txMachine.exec i x .lock s = none := if_neg hheld
    rw [hwait] at hx
    cases hx
  have hs' : s' = { s with holder := some i } := by
    have hgo : txMachine.exec i x .lock s = some ((), { s with holder := some i }) := if_pos hfree
    rw [hgo] at hx
    exact (congrArg Prod.snd (some.inj hx)).symm
  subst hs'
  refine ⟨⟨?_, fun j hj => ?_⟩, ?_, hinv.matched hfree⟩
  · exact ⟨fun h => (by cases h), hinv.closed, hinv.flagged, hinv.clearing, hinv.ending,
      fun j hj => (by cases hj; exact hs.inFlight), hinv.promised⟩
  · refine ⟨Iff.rfl, Iff.rfl, Iff.rfl, iff_of_false (fun h => hj (some.inj h).symm) ?_, id,
      id, fun h => ?_⟩
    · rw [hfree]
      exact fun h => by cases h
    · rw [hfree] at h
      cases h
  · exact ⟨hs.inFlight, hs.ending, iff_of_true rfl rfl, hs.clearing, hs.promised, hs.acks⟩

theorem unlock_triple :
    TxTriple i (LockedAt e c m i) (TxProgram.perform .unlock) fun _ => At e false c m i := by
  refine .perform LockedAt.stable (fun _ => At.stable) (fun _ _ _ => trivial) ?_
  intro s hinv ⟨hs, hmatched⟩ x r s' _ hx
  cases hx
  refine ⟨⟨?_, fun j hj => ?_⟩, ?_⟩
  · exact ⟨fun _ => hmatched, hinv.closed, hinv.flagged, hinv.clearing, hinv.ending,
      fun j hj => (by cases hj), hinv.promised⟩
  · exact yields_of_held (hs.held.mpr rfl) hj rfl rfl Iff.rfl (fun h => (by cases h)) rfl id
  · exact ⟨hs.inFlight, hs.ending, iff_of_false (fun h => (by cases h)) (fun h => (by cases h)),
      hs.clearing, hs.promised, hs.acks⟩

theorem txRead_triple :
    TxTriple i (LockedAt e c m i) (TxProgram.perform .read)
      fun state s => LockedAt e c (m && state.isQueuing) i s ∧ s.tx = state := by
  have hstable (state : TransactionState) : txDiscipline.Stable i
      fun s => LockedAt e c (m && state.isQueuing) i s ∧ s.tx = state := fun s s' hy hinv hs =>
    ⟨LockedAt.stable s s' hy hinv hs.1, (hy.held (hs.1.1.held.mpr rfl)).1.trans hs.2⟩
  refine .perform LockedAt.stable hstable (fun _ _ _ => trivial) ?_
  intro s hinv ⟨hs, hmatched⟩ x r s' _ hx
  cases hx
  refine ⟨hinv.keeps, ⟨⟨hs.inFlight, hs.ending, hs.held, hs.clearing, fun hm hin => ?_, hs.acks⟩,
    hmatched⟩, rfl⟩
  have hopen := (hinv.promised i hin).1
  rw [hopen, Bool.and_true] at hm
  exact hs.promised hm hin

theorem load_triple :
    TxTriple i (At e false c m i) (TxProgram.perform .load)
      fun flag => At e false c (m && flag) i := by
  refine .perform At.stable (fun _ => At.stable) (fun _ _ _ => trivial) ?_
  intro s hinv hs x r s' _ hx
  cases hx
  refine ⟨hinv.keeps, hs.inFlight, hs.ending, hs.held, hs.clearing, fun hm hin => ?_, hs.acks⟩
  obtain ⟨hopen, hack, -⟩ := hinv.promised i hin
  have hflag := hinv.flagged hack hopen
  have hm' : (m && s.flag) = false := hm
  rw [hflag, Bool.and_true] at hm'
  exact hs.promised hm' hin

structure Opened (i : Nat) (s : SharedTx) : Prop where
  inFlight : i ∈ s.inFlight
  ending : i ∉ s.ending
  held : s.holder = some i
  clearing : s.clearing = ∅
  promised : i ∉ s.promised
  queuing : s.tx.isQueuing = true

theorem Opened.stable : txDiscipline.Stable i (Opened i) := by
  intro s s' hy _ hs
  obtain ⟨htx, hsub, -⟩ := hy.held hs.held
  exact ⟨hy.inFlight.mpr hs.inFlight, fun h => hs.ending (hy.ending.mp h), hy.holder.mpr hs.held,
    Finset.subset_empty.mp (hs.clearing ▸ hsub), fun h => hs.promised (hy.promised h),
    htx.symm ▸ hs.queuing⟩

theorem open_triple :
    TxTriple i
      (fun s => LockedAt false false false i s ∧ s.tx = .idle) (TxProgram.perform .open)
      fun _ => Opened i := by
  refine .perform (fun s s' hy hinv hs => ⟨LockedAt.stable s s' hy hinv hs.1,
    (hy.held (hs.1.1.held.mpr rfl)).1.trans hs.2⟩) (fun _ => Opened.stable)
    (fun _ _ _ => trivial) ?_
  intro s hinv ⟨⟨hs, hmatched⟩, hidle⟩ x r s' hpermit hx
  have hclear : s.clearing = ∅ := hpermit
  have hheld := hs.held.mpr rfl
  cases hx
  refine ⟨⟨?_, fun j hj => ?_⟩, ?_⟩
  · refine ⟨fun h => ?_, fun j hj => ?_, fun h => (by cases h), hinv.clearing, hinv.ending,
      hinv.holder, fun j hj => ?_⟩
    · exact absurd (hheld.symm.trans h) (some_ne_none i)
    · rw [hclear] at hj
      exact absurd hj (notMem_empty j)
    · have hqueuing := (hinv.promised j hj).1
      rw [hidle] at hqueuing
      cases hqueuing
  · exact yields_of_held hheld hj rfl rfl Iff.rfl (not_holder hheld hj) rfl
      fun _ h => absurd (some.inj h).symm hj
  · exact ⟨hs.inFlight, fun h => (by cases hs.ending.mp h), hheld, hclear, hs.promised rfl, rfl⟩

theorem storeTrue_triple :
    TxTriple i (Opened i) (TxProgram.perform (.store true))
      fun _ => LockedAt false false false i := by
  refine .perform Opened.stable (fun _ => LockedAt.stable) (fun _ _ _ => trivial) ?_
  intro s hinv hs x r s' _ hx
  cases hx
  refine ⟨⟨?_, fun j hj => ?_⟩, ?_, fun _ => hs.queuing.symm⟩
  · exact ⟨fun h => absurd (hs.held.symm.trans h) (some_ne_none i), hinv.closed,
      fun _ _ => rfl, hinv.clearing, hinv.ending, hinv.holder, hinv.promised⟩
  · exact yields_of_held hs.held hj rfl rfl Iff.rfl (not_holder hs.held hj) rfl fun _ _ _ => rfl
  · refine ⟨hs.inFlight, iff_of_false hs.ending false_ne_true, iff_of_true hs.held rfl,
      iff_of_false (fun h => ?_) false_ne_true, fun _ => hs.promised, fun _ _ => rfl⟩
    have hin : i ∈ s.clearing := h
    rw [hs.clearing] at hin
    exact absurd hin (notMem_empty i)

theorem close_triple :
    TxTriple i (LockedAt true c m i) (TxProgram.perform .close)
      fun _ => LockedAt true true m i := by
  refine .perform LockedAt.stable (fun _ => LockedAt.stable) (fun _ _ _ => trivial) ?_
  intro s hinv ⟨hs, hmatched⟩ x r s' _ hx
  have hheld := hs.held.mpr rfl
  have hending := hs.ending.mpr rfl
  cases hx
  refine ⟨⟨?_, fun j hj => ?_⟩, ?_, fun h => ?_⟩
  · refine ⟨fun h => absurd (hheld.symm.trans h) (some_ne_none i), fun _ _ => rfl,
      fun _ h => (by cases h), insert_subset hending hinv.clearing, hinv.ending, hinv.holder,
      fun j hj => ?_⟩
    have hnone := (hinv.promised j hj).2.2
    rw [hnone] at hending
    exact absurd hending (notMem_empty i)
  · refine yields_of_held hheld hj rfl rfl ?_ (not_holder hheld hj) rfl fun _ _ h => (by cases h)
    exact Finset.mem_insert.trans (or_iff_right hj)
  · exact ⟨hs.inFlight, hs.ending, hs.held, iff_of_true (mem_insert_self i _) rfl,
      hs.promised, fun _ h => (by cases h)⟩
  · exact absurd h (insert_ne_empty i _)

theorem storeFalse_triple :
    TxTriple i (At true h true m i)
      (TxProgram.perform (.store false))
      fun _ s => At true h false m i s ∧ (h = true → s.Matched) := by
  have hstable : txDiscipline.Stable i fun s => At true h false m i s ∧ (h = true → s.Matched) :=
    fun s s' hy hinv hs => ⟨At.stable s s' hy hinv hs.1, fun hh =>
      (hy.held (hs.1.held.mpr hh)).2.2 (hs.2 hh)⟩
  refine .perform At.stable (fun _ => hstable) (fun _ _ _ => trivial) ?_
  intro s hinv hs x r s' _ hx
  have hidle : s.tx = .idle := hinv.closed i (hs.clearing.mpr rfl)
  have hnot : s.tx.isQueuing = false := by rw [hidle]; rfl
  cases hx
  have hacks (j : Nat) : Acks j { s with flag := false, clearing := s.clearing.erase i } :=
    fun _ hq => absurd (hnot.symm.trans hq) false_ne_true
  have hmatched : Matched { s with flag := false, clearing := s.clearing.erase i } := fun _ => hnot.symm
  refine ⟨⟨?_, fun j hj => ?_⟩, ?_, fun _ => hmatched⟩
  · exact ⟨fun _ => hmatched, fun _ _ => hidle, fun _ hq => absurd (hnot.symm.trans hq)
      false_ne_true, (erase_subset i _).trans hinv.clearing, hinv.ending, hinv.holder,
      hinv.promised⟩
  · exact ⟨Iff.rfl, Iff.rfl, Finset.mem_erase.trans (and_iff_right hj), Iff.rfl, id,
      fun _ => hacks j, fun _ => ⟨rfl, erase_subset i _, fun _ => hmatched⟩⟩
  · exact ⟨hs.inFlight, hs.ending, hs.held,
      iff_of_false (notMem_erase i _) false_ne_true, hs.promised, hacks i⟩

theorem write_triple (commands : List Frame) (dirty : Bool) :
    TxTriple i
      (fun s => LockedAt e false m i s ∧ s.tx.isQueuing = true)
      (TxProgram.perform (.write commands dirty)) fun _ => LockedAt e false m i := by
  refine .perform (fun s s' hy hinv hs => ⟨LockedAt.stable s s' hy hinv hs.1,
    (hy.held (hs.1.1.held.mpr rfl)).1.symm ▸ hs.2⟩) (fun _ => LockedAt.stable)
    (fun _ _ _ => trivial) ?_
  intro s hinv ⟨⟨hs, hmatched⟩, hopen⟩ x r s' _ hx
  have hheld := hs.held.mpr rfl
  cases hx
  refine ⟨⟨?_, fun j hj => ?_⟩, ⟨hs.inFlight, hs.ending, hs.held, hs.clearing, hs.promised, ?_⟩, ?_⟩
  · refine ⟨fun h => absurd (hheld.symm.trans h) (some_ne_none i), fun j hj => ?_,
      fun hack _ => hinv.flagged hack hopen, hinv.clearing, hinv.ending, hinv.holder,
      fun j hj => ⟨rfl, (hinv.promised j hj).2⟩⟩
    have hidle := hinv.closed j hj
    rw [hidle] at hopen
    cases hopen
  · exact yields_of_held hheld hj rfl rfl Iff.rfl (not_holder hheld hj) rfl
      fun hacks ho _ => hacks ho hopen
  · exact fun ho _ => hs.acks ho hopen
  · exact fun hc => (hmatched hc).trans hopen

structure Outside (i : Nat) (s : SharedTx) : Prop where
  inFlight : i ∉ s.inFlight
  promised : i ∉ s.promised
  acks : s.Acks i

theorem Outside.stable : txDiscipline.Stable i (Outside i) := fun _ _ hy _ hs =>
  ⟨fun h => hs.inFlight (hy.inFlight.mp h), fun h => hs.promised (hy.promised h), hy.acks hs.acks⟩

theorem enter_keeps (hinv : Coherent s) (frame : Frame) :
    txDiscipline.Keeps i s (s.enter i frame) := by
  have hholder : ∀ j, s.holder = some j → j ∈ insert i s.inFlight :=
    fun j hj => mem_insert_of_mem (hinv.holder j hj)
  have hothers {j : Nat} (hj : j ≠ i) (l : Finset Nat) : j ∈ insert i l ↔ j ∈ l :=
    Finset.mem_insert.trans (or_iff_right hj)
  unfold enter
  split
  · refine ⟨⟨hinv.matched, hinv.closed, hinv.flagged,
      hinv.clearing.trans (subset_insert i _), insert_subset_insert i hinv.ending,
      hholder, fun j hj => absurd hj (notMem_empty j)⟩, fun j hj => ?_⟩
    exact ⟨hothers hj _, hothers hj _, Iff.rfl, Iff.rfl, fun h => absurd h (notMem_empty j),
      id, fun _ => ⟨rfl, Finset.Subset.refl _, id⟩⟩
  · split
    · next hcond =>
      refine ⟨⟨hinv.matched, hinv.closed, hinv.flagged, hinv.clearing,
        hinv.ending.trans (subset_insert i _), hholder, fun j hj => ?_⟩, fun j hj => ?_⟩
      · rcases Finset.mem_insert.mp hj with rfl | hj
        · exact hcond.2
        · exact hinv.promised j hj
      · exact ⟨hothers hj _, Iff.rfl, Iff.rfl, Iff.rfl, (hothers hj _).mp, id,
          fun _ => ⟨rfl, Finset.Subset.refl _, id⟩⟩
    · refine ⟨⟨hinv.matched, hinv.closed, hinv.flagged, hinv.clearing,
        hinv.ending.trans (subset_insert i _), hholder, hinv.promised⟩, fun j hj => ?_⟩
      exact ⟨hothers hj _, Iff.rfl, Iff.rfl, Iff.rfl, id, id,
        fun _ => ⟨rfl, Finset.Subset.refl _, id⟩⟩

theorem enter_at (hinv : Coherent s) (hs : Outside i s) (frame : Frame) :
    At (endsTransaction frame) false false (isOrdinary frame) i (s.enter i frame) := by
  have hending : i ∉ s.ending := fun h => hs.inFlight (hinv.ending h)
  have hclearing : i ∉ s.clearing := fun h => hending (hinv.clearing h)
  have hholder : s.holder ≠ some i := fun h => hs.inFlight (hinv.holder i h)
  unfold enter
  split
  · next hends =>
    exact ⟨mem_insert_self i _, iff_of_true (mem_insert_self i _) hends,
      iff_of_false hholder false_ne_true, iff_of_false hclearing false_ne_true,
      fun _ => notMem_empty i, hs.acks⟩
  · next hends =>
    split
    · next hcond =>
      exact ⟨mem_insert_self i _, iff_of_false hending hends,
        iff_of_false hholder false_ne_true, iff_of_false hclearing false_ne_true,
        fun h => absurd (h.symm.trans hcond.1) false_ne_true, hs.acks⟩
    · exact ⟨mem_insert_self i _, iff_of_false hending hends,
        iff_of_false hholder false_ne_true, iff_of_false hclearing false_ne_true,
        fun _ => hs.promised, hs.acks⟩

theorem enter_triple (frame : Frame) :
    TxTriple i (Outside i) (TxProgram.perform (.enter frame))
      fun _ => At (endsTransaction frame) false false (isOrdinary frame) i := by
  refine .perform Outside.stable (fun _ => At.stable) (fun _ _ _ => trivial) ?_
  intro s hinv hs x r s' _ hx
  cases hx
  exact ⟨enter_keeps hinv frame, enter_at hinv hs frame⟩

theorem depart_keeps (hinv : Coherent s) (hs : At e false false m i s) :
    txDiscipline.Keeps i s (s.depart i) := by
  have hothers {j : Nat} (hj : j ≠ i) (l : Finset Nat) : j ∈ l.erase i ↔ j ∈ l :=
    Finset.mem_erase.trans (and_iff_right hj)
  refine ⟨⟨hinv.matched, hinv.closed, hinv.flagged, fun j hj => ?_,
    erase_subset_erase i hinv.ending, fun j hj => ?_, fun j hj => ?_⟩, fun j hj => ?_⟩
  · exact Finset.mem_erase.mpr ⟨fun h => hs.not_clearing (h ▸ hj), hinv.clearing hj⟩
  · exact Finset.mem_erase.mpr ⟨fun h => hs.not_held (h ▸ hj), hinv.holder j hj⟩
  · obtain ⟨hopen, hack, hnone⟩ := hinv.promised j (mem_of_mem_erase hj)
    exact ⟨hopen, hack, Finset.subset_empty.mp (hnone ▸ erase_subset i _)⟩
  · exact ⟨hothers hj _, hothers hj _, Iff.rfl, Iff.rfl, mem_of_mem_erase, id,
      fun _ => ⟨rfl, Finset.Subset.refl _, id⟩⟩

theorem leave_keeps (hinv : Coherent s) (hs : At e false false m i s) :
    txDiscipline.Keeps i s (s.leave i) := by
  obtain ⟨hcoherent, hyields⟩ := depart_keeps hinv hs
  refine ⟨⟨hcoherent.matched, hcoherent.closed, fun hack hopen => ?_, hcoherent.clearing,
    hcoherent.ending, hcoherent.holder, fun j hj => ?_⟩, fun j hj => ?_⟩
  · rcases Bool.or_eq_true_iff.mp hack with hack | hopener
    · exact hinv.flagged hack hopen
    · exact hs.acks (of_decide_eq_true hopener) hopen
  · obtain ⟨hopen, hack, hnone⟩ := hcoherent.promised j hj
    exact ⟨hopen, Bool.or_eq_true_iff.mpr (.inl hack), hnone⟩
  · have hy := hyields j hj
    exact ⟨hy.inFlight, hy.ending, hy.clearing, hy.holder, hy.promised, hy.acks, hy.held⟩

end

section

variable {i : Nat} {e m : Bool}

theorem gated_triple (own : Bool) (frame : Frame) (hown : own = true → m = false) :
    TxTriple i (At e false false m i) (TxProgram.gated own frame)
      fun _ => At e false false m i := by
  have hassert : ∀ s, Coherent s → At e false false m i s →
      TxOp.Faithful i s (.gated own frame) := by
    intro s _ hs
    cases own with
    | true => exact hs.promised (hown rfl)
    | false => trivial
  refine .bind (Q := fun _ => At e false false m i) (.perform At.stable (fun _ => At.stable)
    hassert ?_) fun reply => ?_
  · intro s hinv hs x r s' _ hx
    cases hx
    exact ⟨hinv.keeps, hs⟩
  · cases reply with
    | some reply => exact .ret At.stable fun _ _ hs => hs
    | none => exact .halt At.stable fun s hinv hs => ⟨depart_keeps hinv hs, trivial⟩

theorem handleMulti_triple :
    TxTriple i (At false false false false i) TxProgram.handleMulti
      fun _ => At false false false false i := by
  refine .bind lock_triple fun _ => .bind txRead_triple fun state => ?_
  cases state with
  | queuing commands dirty =>
    refine .bind (.pre unlock_triple fun s hs => hs.1) fun _ => ?_
    exact .ret At.stable fun _ _ hs => hs
  | idle =>
    refine .bind open_triple fun _ => .bind storeTrue_triple fun _ => .bind unlock_triple fun _ => ?_
    exact .ret At.stable fun _ _ hs => hs

theorem closeUnderLock_triple (reply : Frame) :
    TxTriple i (LockedAt true false m i)
      (TxProgram.closeUnderLock reply) fun _ => At true false false m i := by
  refine .bind close_triple fun _ => .bind (.pre storeFalse_triple fun s hs => hs.1) fun _ => ?_
  refine .bind (.pre unlock_triple fun s hs => ⟨hs.1, hs.2 rfl⟩) fun _ => ?_
  exact .ret At.stable fun _ _ hs => hs

theorem handleDiscard_triple :
    TxTriple i (At true false false false i)
      TxProgram.handleDiscard fun _ => At true false false false i := by
  refine .bind lock_triple fun _ => .bind txRead_triple fun state => ?_
  cases state with
  | idle =>
    refine .bind (.pre unlock_triple fun s hs => hs.1) fun _ => ?_
    exact .ret At.stable fun _ _ hs => hs
  | queuing commands dirty => exact .pre (closeUnderLock_triple okReply) fun s hs => hs.1

theorem runQueue_triple (frames : List Frame) :
    TxTriple i (At e false false m i) (TxProgram.runQueue frames)
      fun _ => At e false false m i := by
  induction frames with
  | nil => exact .ret At.stable fun _ _ hs => hs
  | cons frame frames ih =>
    refine .bind (gated_triple false frame (fun h => by cases h)) fun _ => .bind ih fun _ => ?_
    exact .ret At.stable fun _ _ hs => hs

theorem handleExec_triple :
    TxTriple i (At true false false false i) TxProgram.handleExec
      fun _ => At true false false false i := by
  refine .bind lock_triple fun _ => .bind txRead_triple fun state => ?_
  cases state with
  | idle =>
    refine .bind (.pre unlock_triple fun s hs => hs.1) fun _ => ?_
    exact .ret At.stable fun _ _ hs => hs
  | queuing commands dirty =>
    cases dirty with
    | true => exact .pre (closeUnderLock_triple execAborted) fun s hs => hs.1
    | false =>
      refine .bind (.pre close_triple fun s hs => hs.1) fun _ => .bind unlock_triple fun _ => ?_
      refine .bind storeFalse_triple fun _ => ?_
      refine .bind (.pre (runQueue_triple commands) fun s hs => hs.1) fun _ => ?_
      exact .ret At.stable fun _ _ hs => hs

def Answered (e : Bool) (m : Bool) (frame : Frame) (i : Nat) (reply : Frame) (s : SharedTx) :
    Prop :=
  At e false false m i s ∧ (i ∈ s.promised → queueReply frame = some reply)

theorem Answered.stable {frame reply : Frame} :
    txDiscipline.Stable i (Answered e m frame i reply) := fun s s' hy hinv hs =>
  ⟨At.stable s s' hy hinv hs.1, fun h => hs.2 (hy.promised h)⟩

theorem Answered.of_not_promised {frame reply : Frame} {s : SharedTx}
    (hs : At e false false false i s) : Answered e m frame i reply s :=
  ⟨⟨hs.inFlight, hs.ending, hs.held, hs.clearing, fun _ => hs.promised rfl, hs.acks⟩,
    fun h => absurd h (hs.promised rfl)⟩

theorem queueReply_eq {frame : Frame} {name : Bytes} (h : commandNameUpper frame = some name)
    (commands : List Frame) (dirty : Bool) :
    queueReply frame = some (queueAnswer commands dirty name frame).1 := by
  rw [queueReply, h, map_some]
  unfold queueAnswer
  split_ifs <;> rfl

theorem queueCommand_triple {frame : Frame} {name : Bytes}
    (hname : commandNameUpper frame = some name) :
    TxTriple i (At false false false m i)
      (TxProgram.queueCommand name frame) (Answered false m frame i) := by
  have hgated : TxTriple i (At false false false false i)
      (TxProgram.gated true frame) (Answered false m frame i) :=
    .conseq (gated_triple true frame fun _ => rfl) (fun _ hs => hs)
      fun _ _ _ hs => .of_not_promised hs
  refine .bind load_triple fun flag => ?_
  cases flag with
  | false =>
    rw [Bool.and_false m]
    exact hgated
  | true =>
    refine .bind (.pre lock_triple fun s hs => Bool.and_true m ▸ hs) fun _ =>
      .bind txRead_triple fun state => ?_
    cases state with
    | idle =>
      have hgone : (m && TransactionState.idle.isQueuing) = false := Bool.and_false m
      rw [hgone]
      exact .bind (.pre unlock_triple fun s hs => hs.1) fun _ => hgated
    | queuing commands dirty =>
      refine .bind (.pre (write_triple _ _) fun s hs => ⟨hs.1, by rw [hs.2]; rfl⟩) fun _ =>
        .bind unlock_triple fun _ => ?_
      refine .ret At.stable fun s _ hs => ⟨Bool.and_true m ▸ hs, fun _ => ?_⟩
      exact queueReply_eq hname commands dirty

theorem intercept_triple (frame : Frame) :
    TxTriple i
      (At (endsTransaction frame) false false (isOrdinary frame) i) (TxProgram.intercept frame)
      (Answered (endsTransaction frame) (isOrdinary frame) frame i) := by
  cases hname : commandNameUpper frame with
  | none =>
    have hends : endsTransaction frame = false := by simp [endsTransaction, hname]
    have hplain : isOrdinary frame = false := by rw [isOrdinary, hname]; rfl
    rw [TxProgram.intercept, hname, hends, hplain]
    exact .conseq (gated_triple true frame fun _ => rfl) (fun _ hs => hs)
      fun _ _ _ hs => .of_not_promised hs
  | some name =>
    have hends : endsTransaction frame =
        decide (name = txt "EXEC" ∨ name = txt "DISCARD") := by simp [endsTransaction, hname]
    have hplain : isOrdinary frame =
        decide (name ∉ [txt "MULTI", txt "DISCARD", txt "EXEC"]) := by rw [isOrdinary, hname]; rfl
    rw [TxProgram.intercept, hname]
    dsimp only
    split_ifs with hmulti hdiscard hexec
    · have hends' : endsTransaction frame = false := by rw [hends, hmulti]; decide
      have hplain' : isOrdinary frame = false := by rw [hplain, hmulti]; decide
      rw [hends', hplain']
      exact .conseq handleMulti_triple (fun _ hs => hs) fun _ _ _ hs => .of_not_promised hs
    · have hends' : endsTransaction frame = true := by rw [hends, hdiscard]; decide
      have hplain' : isOrdinary frame = false := by rw [hplain, hdiscard]; decide
      rw [hends', hplain']
      exact .conseq handleDiscard_triple (fun _ hs => hs) fun _ _ _ hs => .of_not_promised hs
    · have hends' : endsTransaction frame = true := by rw [hends, hexec]; decide
      have hplain' : isOrdinary frame = false := by rw [hplain, hexec]; decide
      rw [hends', hplain']
      exact .conseq handleExec_triple (fun _ hs => hs) fun _ _ _ hs => .of_not_promised hs
    · have hends' : endsTransaction frame = false := by
        rw [hends]
        exact decide_eq_false fun h => h.elim hexec hdiscard
      rw [hends']
      exact queueCommand_triple hname

theorem leave_triple (frame : Frame) (refusal : Option Frame) (reply : Frame) {P : SharedTx → Prop}
    (hP : txDiscipline.Stable i P) (hat : ∀ s, P s → At e false false m i s)
    (hassert : ∀ s, P s → TxOp.Faithful i s (.leave frame refusal reply)) :
    TxTriple i P (TxProgram.perform (.leave frame refusal reply)) fun _ _ => True := by
  refine .perform hP (fun _ _ _ _ _ _ => trivial) (fun s _ hs => hassert s hs) ?_
  intro s hinv hs x r s' _ hx
  cases hx
  exact ⟨leave_keeps hinv (hat s hs), trivial⟩

theorem txRequest_triple (frame : Frame) :
    TxTriple i (Outside i) (TxProgram.request frame) fun _ _ => True := by
  have hdone (reply : Frame) : TxTriple i (fun _ => True)
      (.ret reply) fun _ _ => True := .ret (fun _ _ _ _ _ => trivial) fun _ _ _ => trivial
  refine .bind (enter_triple frame) fun refusal => ?_
  cases refusal with
  | some reply =>
    exact .bind (leave_triple frame (some reply) reply At.stable (fun _ hs => hs)
      fun _ _ _ => .inl rfl) fun _ => hdone reply
  | none =>
    refine .bind (intercept_triple frame) fun reply => ?_
    exact .bind (leave_triple frame none reply Answered.stable (fun _ hs => hs.1)
      fun _ hs hin => .inr (hs.2 hin)) fun _ => hdone reply

end

section

variable {i : Nat} {s : SharedTx}

def Unordered (_ : Nat) (_ : TxCircumstances) (_ : TxOp) (_ : SharedTx) : Prop := True

theorem runs_call {α : Type} {o : TxOp}
    {k : o.Ret → TxProgram α} {q : TxProgram α} {s' s'' : SharedTx} {r : o.Ret}
    (hp : permits i ⟨none, none⟩ o s) (hx : SharedTx.exec i ⟨none, none⟩ o s = some (r, s'))
    (hk : Machine.Runs txMachine permits i (k r) s' q s'') :
    Machine.Runs txMachine permits i (TxProgram.perform o >>= k) s q s'' :=
  .call ⟨none, none⟩ hp hx hk

theorem lock_exec (hfree : s.holder = none) :
    SharedTx.exec i ⟨none, none⟩ .lock s = some ((), { s with holder := some i }) :=
  if_pos hfree

variable {permits : Nat → TxCircumstances → TxOp → SharedTx → Prop}

def multiFrame : Frame := .command [txt "MULTI"]

def execFrame : Frame := .command [txt "EXEC"]

def SharedTx.opened (s : SharedTx) (i : Nat) : SharedTx :=
  SharedTx.leave { s.enter i multiFrame with
    tx := .queuing [] false, flag := true, holder := none, opener := some i,
    acknowledged := false } i

theorem handleMulti_runs (hp : ∀ o s', s'.clearing = s.clearing → permits i ⟨none, none⟩ o s')
    (hidle : s.tx = .idle) (hfree : s.holder = none) :
    Machine.Runs txMachine permits i TxProgram.handleMulti s (.ret okReply)
      { s with tx := .queuing [] false, flag := true, holder := none, opener := some i,
               acknowledged := false } := by
  have hread : SharedTx.exec i ⟨none, none⟩ .read { s with holder := some i } =
      some (.idle, { s with holder := some i }) := by rw [← hidle]; rfl
  exact runs_call (hp _ _ rfl) (lock_exec hfree) <| runs_call (hp _ _ rfl) hread <|
    runs_call (hp _ _ rfl) rfl <| runs_call (hp _ _ rfl) rfl <| runs_call (hp _ _ rfl) rfl <|
    .refl _ _

theorem multi_runs (hp : ∀ o s', s'.clearing = s.clearing → permits i ⟨none, none⟩ o s')
    (hidle : s.tx = .idle) (hfree : s.holder = none) :
    Machine.Runs txMachine permits i (TxProgram.request multiFrame) s (.ret okReply)
      (s.opened i) := by
  have hintercept : Machine.Runs txMachine permits i (TxProgram.intercept multiFrame)
      (s.enter i multiFrame) (.ret okReply) _ := handleMulti_runs hp hidle hfree
  exact runs_call (hp _ _ rfl) rfl (hintercept.bind (runs_call (hp _ _ rfl) rfl (.refl _ _)))

def TxProgram.clear : TxProgram Frame := do
  perform (.store false)
  perform (.leave execFrame none (.array []))
  return .array []

theorem exec_takes (hqueue : s.tx = .queuing [] false) (hfree : s.holder = none) :
    Machine.Runs txMachine Unordered i (TxProgram.request execFrame) s TxProgram.clear
      { s.enter i execFrame with
        tx := .idle, holder := none, clearing := insert i s.clearing } := by
  have hread : SharedTx.exec i ⟨none, none⟩ .read { s.enter i execFrame with holder := some i } =
      some (.queuing [] false, { s.enter i execFrame with holder := some i }) := by
    rw [← hqueue]
    rfl
  exact runs_call trivial rfl <| runs_call trivial (lock_exec hfree) <| runs_call trivial hread <|
    runs_call trivial rfl <| runs_call trivial rfl <| .refl _ _

theorem clear_runs :
    Machine.Runs txMachine Unordered i TxProgram.clear s (.ret (.array []))
      (SharedTx.leave { s with flag := false, clearing := s.clearing.erase i } i) :=
  runs_call trivial rfl (runs_call trivial rfl (.refl _ _))

end

def txStart (requests : Nat → Option Frame) : Config TxOp TxOp.Ret Frame SharedTx :=
  ⟨.start, fun i => (requests i).map TxProgram.request⟩

/-- While no request is being processed the flag tells the state; a request that was issued in an
acknowledged transaction, with none outstanding that would end it, is not run at once, and unless
the gates refuse it the reply to it is the transaction's. -/
def TransactionKept (cfg : Config TxOp TxOp.Ret Frame SharedTx) : Prop :=
  (cfg.shared.inFlight = ∅ → cfg.shared.flag = cfg.shared.tx.isQueuing) ∧
    (∀ i frame k, cfg.threads i = some (.call (.gated true frame) k) → i ∉ cfg.shared.promised) ∧
    ∀ i frame refusal reply k, cfg.threads i = some (.call (.leave frame refusal reply) k) →
      i ∈ cfg.shared.promised → refusal = some reply ∨ queueReply frame = some reply

theorem start_coherent : Coherent .start where
  matched _ _ := rfl
  closed i hi := absurd hi (notMem_empty i)
  flagged h := by cases h
  clearing := Finset.Subset.refl _
  ending := Finset.Subset.refl _
  holder _ h := by cases h
  promised i hi := absurd hi (notMem_empty i)

theorem sustains_txStart (requests : Nat → Option Frame) :
    txDiscipline.Sustains txMachine Orderly (fun _ _ _ => True) (txStart requests) := by
  refine ⟨start_coherent, fun i p hp => ?_, fun _ _ => trivial⟩
  obtain ⟨frame, -, rfl⟩ := map_eq_some_iff.mp hp
  refine txRequest_triple frame _ ⟨notMem_empty i, notMem_empty i, fun h => ?_⟩
  cases h

/-- Whatever the requests of a connection and however they interleave: as long as no `MULTI` opens a
transaction while another request is between closing one and clearing the flag. -/
theorem transaction_kept (requests : Nat → Option Frame)
    {cfg : Config TxOp TxOp.Ret Frame SharedTx}
    (h : txMachine.Reaches Orderly (txStart requests) cfg) : TransactionKept cfg := by
  have hsustains := Discipline.sound (sustains_txStart requests) h
  have hinv : Coherent cfg.shared := hsustains.inv
  have hfaithful {i : Nat} {o : TxOp} {k : o.Ret → TxProgram Frame}
      (hi : cfg.threads i = some (.call o k)) : o.Faithful i cfg.shared :=
    (hsustains.threads i _ hi cfg.shared (txDiscipline.rely_refl i _) hsustains.inv).1
  refine ⟨fun hnone => ?_, fun i frame k hi => hfaithful hi,
    fun i frame refusal reply k hi => hfaithful hi⟩
  have hending : cfg.shared.ending = ∅ := Finset.subset_empty.mp (hnone ▸ hinv.ending)
  have hclearing : cfg.shared.clearing = ∅ := Finset.subset_empty.mp (hending ▸ hinv.clearing)
  have hholder : cfg.shared.holder = none := by
    cases hheld : cfg.shared.holder with
    | none => rfl
    | some i =>
      have hin := hinv.holder i hheld
      rw [hnone] at hin
      exact absurd hin (notMem_empty i)
  exact hinv.matched hholder hclearing

def getFrame : Frame := .command [txt "GET", txt "k"]

/-- Two commands are queued behind a `MULTI`, the second of them while the first is between its look
at the flag and the lock. -/
theorem transaction_kept_multi :
    ∃ cfg : Config TxOp TxOp.Ret Frame SharedTx,
      txMachine.Reaches Orderly (txStart fun i => [multiFrame, getFrame, getFrame][i]?) cfg ∧
        cfg.shared.inFlight = ∅ ∧ cfg.threads 1 = some (.ret queuedReply) ∧
        cfg.shared.tx = .queuing [getFrame, getFrame] false ∧ TransactionKept cfg := by
  have horderly (o : TxOp) (s : SharedTx) (hs : s.clearing = ∅) : Orderly 0 ⟨none, none⟩ o s := by
    cases o
    case «open» => exact hs
    all_goals exact trivial
  have hstart : txMachine.Reaches Orderly
      (txStart fun i => [multiFrame, getFrame, getFrame][i]?) _ := .refl
  have hopened := hstart.runs rfl (multi_runs horderly rfl rfl)
  have hloaded := hopened.runs (i := 1) rfl <|
    .call ⟨none, none⟩ trivial rfl <| .call ⟨none, none⟩ trivial rfl <| .refl _ _
  have hqueued := hloaded.runs (i := 2) rfl <|
    .call ⟨none, none⟩ trivial rfl <| .call ⟨none, none⟩ trivial rfl <|
    .call ⟨none, none⟩ trivial rfl <| .call ⟨none, none⟩ trivial rfl <|
    .call ⟨none, none⟩ trivial rfl <| .call ⟨none, none⟩ trivial rfl <|
    .call ⟨none, none⟩ trivial rfl <| .refl _ _
  have hreach := hqueued.runs (i := 1) rfl <|
    .call ⟨none, none⟩ trivial rfl <| .call ⟨none, none⟩ trivial rfl <|
    .call ⟨none, none⟩ trivial rfl <| .call ⟨none, none⟩ trivial rfl <|
    .call ⟨none, none⟩ trivial rfl <| .refl _ _
  exact ⟨_, hreach, rfl, rfl, rfl, transaction_kept _ hreach⟩

/-- A second `MULTI` opens a transaction after an `EXEC` has taken the queue of the first, and the
`EXEC` then clears the flag: all is answered, and the next command is run at once. -/
theorem transaction_lost_to_exec :
    ¬ ∀ (requests : Nat → Option Frame) (cfg : Config TxOp TxOp.Ret Frame SharedTx),
      txMachine.Reaches Unordered (txStart requests) cfg → TransactionKept cfg := by
  intro hkept
  have hstart : txMachine.Reaches Unordered
      (txStart fun i => [multiFrame, execFrame, multiFrame][i]?) _ := .refl
  have hopened := hstart.runs (i := 0) rfl (multi_runs (fun _ _ _ => trivial) rfl rfl)
  have htaken := hopened.runs (i := 1) rfl (exec_takes rfl rfl)
  have hreopened := htaken.runs (i := 2) rfl (multi_runs (fun _ _ _ => trivial) rfl rfl)
  have hcleared := hreopened.runs (i := 1) rfl clear_runs
  have hmatched := (hkept _ _ hcleared).1 rfl
  cases hmatched

end RocketMem
