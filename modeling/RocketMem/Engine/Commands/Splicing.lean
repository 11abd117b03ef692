import RocketMem.Engine.Commands.Ranges

namespace RocketMem

open List

variable {F : Type} [F64 F] {env : Env} {st : Store F} {key : Bytes}

section

variable (buf : Bytes) (offset : Nat) (value : Bytes)

theorem splice_eq :
    ∃ front back, front.length = offset ∧ splice buf offset value = front ++ value ++ back ∧
      (∀ i < offset, front[i]? = some (buf.getD i 0)) ∧
      ∀ i, back[i]? = buf[offset + value.length + i]? := by
  let padded := buf ++ List.replicate (offset + value.length - buf.length) 0
  have hlen : padded.length = max buf.length (offset + value.length) := by
    simp only [padded, length_append, length_replicate]
    omega
  refine ⟨padded.take offset, padded.drop (offset + value.length), ?_, rfl, ?_, ?_⟩
  · rw [length_take, hlen]
    omega
  · intro i hi
    rw [getElem?_take_of_lt hi, getElem?_append, getD_eq_getElem?_getD]
    split
    · next hlt => rw [getElem?_eq_getElem hlt, Option.getD_some]
    · next hge =>
      rw [getElem?_eq_none (Nat.not_lt.mp hge), Option.getD_none, getElem?_replicate]
      exact if_pos (by omega)
  · intro i
    rw [getElem?_drop, getElem?_append]
    split
    · rfl
    · next hge =>
      rw [getElem?_eq_none (Nat.not_lt.mp hge), getElem?_replicate]
      exact if_neg (by omega)

theorem length_splice :
    (splice buf offset value).length = max buf.length (offset + value.length) := by
  simp only [splice, length_append, length_take, length_drop, length_replicate]
  omega

theorem splice_written : ((splice buf offset value).drop offset).take value.length = value := by
  obtain ⟨front, back, hlen, heq, -, -⟩ := splice_eq buf offset value
  rw [heq, append_assoc, drop_left' hlen, take_left' rfl]

theorem splice_kept {i : Nat} (hi : i < buf.length)
    (hout : ¬ (offset ≤ i ∧ i < offset + value.length)) :
    (splice buf offset value)[i]? = buf[i]? := by
  obtain ⟨front, back, hlen, heq, hfront, hback⟩ := splice_eq buf offset value
  rw [heq, append_assoc, getElem?_append]
  split_ifs with hbefore
  · rw [hfront i (by omega), getD_eq_getElem?_getD, getElem?_eq_getElem hi, Option.getD_some]
  · rw [getElem?_append_right (by omega), hback]
    congr 1
    omega

theorem splice_padded {i : Nat} (hend : buf.length ≤ i) (hi : i < offset) :
    (splice buf offset value)[i]? = some 0 := by
  obtain ⟨front, back, hlen, heq, hfront, -⟩ := splice_eq buf offset value
  rw [heq, append_assoc, getElem?_append_left (by omega), hfront i hi,
    getD_eq_getElem?_getD, getElem?_eq_none hend, Option.getD_none]

end

theorem getrange_calls (start stop : Int) :
    (getrange key start stop : EngineProgram F _).Calls (EngineOp.On (· = key)) := by
  have hlook : (Engine.get key : EngineProgram F _).Calls (EngineOp.On (· = key)) := .perform rfl
  refine hlook.bind fun v => ?_
  cases v with
  | none => exact .ret _
  | some v =>
    cases v with
    | string b =>
      dsimp only
      split_ifs <;> exact .ret _
    | _ => exact .ret _

theorem getrange_reply {buf : Bytes} {d : Option Nat} {start stop : Int}
    (hlive : st.live env.clock key = some (.string buf, d))
    (hstart : 0 ≤ resolve buf.length start) (hstop : 0 ≤ resolve buf.length stop)
    (hlt : resolve buf.length stop < buf.length) :
    (runEngine env (getrange key start stop) st).1 =
      some (.ok (atPositions
        (fun p => resolve buf.length start ≤ p ∧ p ≤ resolve buf.length stop) buf)) := by
  have hs : clampIndex buf.length start = min (resolve buf.length start) buf.length := by
    simp only [clampIndex, resolve] at hstart ⊢
    split_ifs at hstart ⊢ <;> omega
  have he : min (clampIndex buf.length stop + 1) buf.length = resolve buf.length stop + 1 := by
    simp only [clampIndex, resolve] at hstop hlt ⊢
    split_ifs at hstop hlt ⊢ <;> omega
  have hreply : (runKeyspace env.clock (getrange key start stop) (st.live env.clock)).1 =
      some (.ok ((buf.drop (clampIndex buf.length start).toNat).take
        (min (clampIndex buf.length stop + 1) buf.length -
          clampIndex buf.length start).toNat)) := by
    rw [getrange, runKeyspace_bind, runKeyspace_get, hlive]
    dsimp only [Option.map_some]
    split_ifs with hle
    · rw [Int.toNat_of_nonpos (by omega), take_zero]
      rfl
    · rfl
  rw [(runEngine_live (getrange_calls start stop) env st).1, hreply, he, hs]
  have hwindow := atPositions_window buf (min (resolve buf.length start) buf.length).toNat
    (resolve buf.length stop + 1).toNat
  have hcount : (resolve buf.length stop + 1 - min (resolve buf.length start) buf.length).toNat =
      (resolve buf.length stop + 1).toNat - (min (resolve buf.length start) buf.length).toNat := by
    omega
  rw [hcount, ← hwindow]
  congr 2
  apply atPositions_congr
  intro p hp
  rw [decide_eq_decide]
  omega

section

def Slot.HoldsString (slot : Slot F) (b : Bytes) (deadline : Option Nat) : Prop :=
  slot = some (.string b, deadline) ∨ slot = none ∧ b = [] ∧ deadline = none

variable {old : Bytes} {deadline : Option Nat} {offset : Nat} {value : Bytes}

theorem spliceFits_of_le (n : Nat) (hfits : ((offset + value.length : Nat) : Int) ≤ i64Max) :
    spliceFits n offset value = true :=
  decide_eq_true (.inr hfits)

theorem setrange_leaves (hold : (st.live env.clock key).HoldsString old deadline)
    (hvalue : value ≠ []) (hfits : ((offset + value.length : Nat) : Int) ≤ i64Max) :
    ∃ st' : Store F,
      st'.live env.clock key = some (.string (splice old offset value), deadline) ∧
      runEngine env (setrange env key offset value) st =
        (some (.ok (splice old offset value).length),
          (runEngine env (Engine.maybeEvict env) st').2) := by
  have hnonempty : value.isEmpty = false := isEmpty_eq_false_iff.mpr hvalue
  let r := KeyOp.exec env.clock.mono key st (.withMutDelta (spliceValue offset value))
  obtain ⟨hfound, hlive⟩ :=
    KeyOp.exec_live env.clock key st (.withMutDelta (spliceValue offset value))
  have hstep : Program.run (EngineOp.exec env)
      (Engine.perform key (.withMutDelta (spliceValue offset value))) st =
        (some ((st.live env.clock key).map Prod.fst), r.2) :=
    Prod.ext (congrArg some hfound) rfl
  unfold setrange
  rw [hnonempty]
  simp only [Bool.false_eq_true, if_false]
  rcases hold with hslot | ⟨hslot, rfl, rfl⟩
  · -- in place: the entry keeps its expiry
    refine ⟨r.2, ?_, ?_⟩
    · rw [hlive, Function.update_self, KeyOp.onSlot, hslot]
      simp [spliceValue, spliceFits_of_le _ hfits, Value.isEmptyCollection]
    · rw [runEngine, Program.run_bind_some _ hstep, hslot]
      simp only [Option.map_some, spliceFits_of_le _ hfits, Bool.not_true, Bool.false_eq_true,
        if_false]
      exact (Engine.maybeEvict_returns env).run_ret _ _ _
  · -- the key is created after a first round of evictions
    let st₁ := (runEngine env (Engine.maybeEvict env) r.2).2
    have hset := (KeyOp.exec_live env.clock key st₁ (.set (.string (splice [] offset value)))).2
    refine ⟨st₁.set key (.string (splice [] offset value)), ?_, ?_⟩
    · exact (congrFun hset key).trans (Function.update_self _ _ _)
    · rw [runEngine, Program.run_bind_some _ hstep, hslot]
      simp only [Option.map_none, spliceFits_of_le _ hfits, Bool.not_true, Bool.false_eq_true,
        if_false]
      have hroom : Program.run (EngineOp.exec env) (Engine.maybeEvict env) r.2 = (some (), st₁) := by
        obtain ⟨u, hu⟩ := (Engine.maybeEvict_returns env).run (EngineOp.exec env) r.2
        exact Prod.ext hu rfl
      rw [Program.run_bind_some _ hroom, Engine.set, Program.bind_assoc]
      exact (Engine.maybeEvict_returns env).run_ret _ _ _

end

/-- What SETRANGE writes GETRANGE reads back, and nothing else of the string or its expiry changes;
the store `st'` is the one in which room is made when the call has written. -/
theorem setrange_getrange_agree (env : Env) :
    (∀ (st : Store F) (key old : Bytes) (deadline : Option Nat) (offset : Nat) (value : Bytes),
      (st.live env.clock key).HoldsString old deadline → value ≠ [] →
      ((offset + value.length : Nat) : Int) ≤ i64Max →
      ∃ (new : Bytes) (st' : Store F),
        runEngine env (setrange env key offset value) st =
          (some (.ok new.length), (runEngine env (Engine.maybeEvict env) st').2) ∧
        (env.maxmemory = none → (runEngine env (setrange env key offset value) st).2 = st') ∧
        st'.live env.clock key = some (.string new, deadline) ∧
        new.length = max old.length (offset + value.length) ∧
        (runEngine env (getrange key offset (offset + value.length - 1)) st').1 = some (.ok value) ∧
        (∀ i < old.length, ¬ (offset ≤ i ∧ i < offset + value.length) → new[i]? = old[i]?) ∧
        ∀ i, old.length ≤ i → i < offset → new[i]? = some 0) ∧
    ∀ (st : Store F) (key buf : Bytes) (deadline : Option Nat) (start stop : Int),
      st.live env.clock key = some (.string buf, deadline) →
      (0 ≤ resolve buf.length start ∧ resolve buf.length start < buf.length) →
      (0 ≤ resolve buf.length stop ∧ resolve buf.length stop < buf.length) →
      (runEngine env (getrange key start stop) st).1 =
        some (.ok (atPositions
          (fun p => resolve buf.length start ≤ p ∧ p ≤ resolve buf.length stop) buf)) := by
  constructor
  · intro st key old deadline offset value hold hvalue hfits
    obtain ⟨st', hlive, hrun⟩ := setrange_leaves hold hvalue hfits
    have hlen := length_splice old offset value
    refine ⟨splice old offset value, st', hrun, ?_, hlive, hlen, ?_,
      fun i hi hout => splice_kept old offset value hi hout,
      fun i hend hi => splice_padded old offset value hend hi⟩
    · intro hmem
      rw [hrun, Engine.maybeEvict, hmem]
      rfl
    · have hpos : 0 < value.length := length_pos_iff.mpr hvalue
      have hfirst : resolve (splice old offset value).length offset = offset := if_neg (by omega)
      have hlast : resolve (splice old offset value).length (offset + value.length - 1) =
          offset + value.length - 1 := if_neg (by omega)
      rw [getrange_reply hlive (by omega) (by omega) (by omega), hfirst, hlast]
      have hwindow := atPositions_window (splice old offset value) offset (offset + value.length)
      rw [Nat.add_sub_cancel_left, splice_written] at hwindow
      have hsame := atPositions_congr (l := splice old offset value)
        (P := fun p => (offset : Int) ≤ p ∧ (p : Int) ≤ offset + value.length - 1)
        (Q := fun p => offset ≤ p ∧ p < offset + value.length) fun p _ => by
          rw [decide_eq_decide]
          omega
      rw [hsame, hwindow]
  · intro st key buf deadline start stop hlive hstart hstop
    exact getrange_reply hlive hstart.1 hstop.1 hstop.2

theorem setrange_getrange_agree_created :
    ∃ (new : Bytes) (st' : Store Score),
      (runEngine Env.still (setrange Env.still (txt "k") 2 (txt "x"))
        Store.new).2 = st' ∧ new.length = 3 ∧
      (runEngine Env.still (getrange (txt "k") 2 2) st').1 = some (.ok (txt "x")) ∧
      new[0]? = some 0 := by
  obtain ⟨new, st', -, hst, -, hlen, hread, -, hzero⟩ :=
    (setrange_getrange_agree (F := Score) Env.still).1 Store.new (txt "k") [] none 2
      (txt "x") (.inr ⟨rfl, rfl, rfl⟩) (by decide) (by decide)
  exact ⟨new, st', hst rfl, hlen, hread, hzero 0 (Nat.zero_le _) (by decide)⟩

end RocketMem
