import RocketMem.Framework.Crc
import RocketMem.Server.Cluster

namespace RocketMem

open List

open Polynomial

theorem bit15_iff_msb (c : UInt16) : c &&& 0x8000 ≠ 0 ↔ c.toBitVec.msb = true := by
  have hmask : (c &&& 0x8000).toBitVec = c.toBitVec &&& BitVec.twoPow 16 15 := rfl
  have hand := BitVec.and_twoPow c.toBitVec 15
  rw [BitVec.msb_eq_getLsbD_last, ne_eq, ← UInt16.toBitVec_inj, hmask, hand]
  cases c.toBitVec.getLsbD 15 <;> decide

theorem crcStep_toBitVec (c : UInt16) : (crcStep c).toBitVec = crcShift 0x1021#16 c.toBitVec := by
  unfold crcStep crcShift
  by_cases hbit : c.toBitVec.msb = true
  · rw [if_pos ((bit15_iff_msb c).mpr hbit), if_pos hbit]
    simp
  · rw [if_neg (mt (bit15_iff_msb c).mp hbit), if_neg hbit]
    simp

theorem crcStep_iterate_toBitVec (n : Nat) (c : UInt16) :
    (Nat.iterate crcStep n c).toBitVec = (crcShift 0x1021#16)^[n] c.toBitVec := by
  induction n generalizing c with
  | zero => rfl
  | succ n ih => rw [Function.iterate_succ_apply, Function.iterate_succ_apply, ih, crcStep_toBitVec]

theorem crc16_toBitVec (data : Bytes) :
    (crc16 data).toBitVec = crc 0x1021#16 (data.map UInt8.toBitVec) := by
  have hfold (c : UInt16) : (data.foldl (fun crc byte =>
      Nat.iterate crcStep 8 (crc ^^^ byte.toUInt16 <<< (8 : UInt16))) c).toBitVec =
      (data.map UInt8.toBitVec).foldl (crcFeed 0x1021#16) c.toBitVec := by
    induction data generalizing c with
    | nil => rfl
    | cons byte data ih =>
      have hfeed : (c ^^^ byte.toUInt16 <<< (8 : UInt16)).toBitVec =
          c.toBitVec ^^^ (byte.toBitVec.setWidth 16 <<< (16 - 8)) := by
        rw [UInt16.toBitVec_xor]
        congr 1
      rw [foldl_cons, ih, crcStep_iterate_toBitVec, hfeed]
      rfl
  exact hfold 0

theorem crcDivisor_ccitt : crcDivisor 0x1021#16 = X ^ 16 + X ^ 12 + X ^ 5 + 1 := by
  have hlow : bitPoly 0x1021#16 = X ^ 12 + X ^ 5 + 1 := by
    ext n
    rw [coeff_bitPoly]
    simp only [coeff_add, coeff_X_pow, coeff_one]
    by_cases hn : n < 16
    · interval_cases n <;> decide
    · have hzero : (0x1021#16).getLsbD n = false := BitVec.getLsbD_of_ge _ _ (by omega)
      simp [hzero, show n ≠ 12 by omega, show n ≠ 5 by omega, show n ≠ 0 by omega]
  rw [crcDivisor, hlow]
  ring

/-- The bytes between the first opening brace of a key and the first closing one after it, if there
are any. -/
def IsHashTag (key tag : Bytes) : Prop :=
  tag ≠ [] ∧ ∃ before after, key = before ++ 123 :: (tag ++ 125 :: after) ∧ 123 ∉ before ∧ 125 ∉ tag

theorem findIdx?_append_cons {b : UInt8} {before : Bytes} (h : b ∉ before) (after : Bytes) :
    (before ++ b :: after).findIdx? (· = b) = some before.length := by
  rw [findIdx?_eq_some_iff_getElem]
  refine ⟨by simp, by simp, ?_⟩
  intro j hj
  have hlt : j < before.length := hj
  rw [getElem_append_left hlt]
  have hne : before[j] ≠ b := fun heq => h (heq ▸ getElem_mem hlt)
  simpa using hne

theorem split_of_findIdx? {b : UInt8} {text : Bytes} {n : Nat}
    (h : text.findIdx? (· = b) = some n) :
    text = text.take n ++ b :: text.drop (n + 1) ∧ b ∉ text.take n := by
  obtain ⟨hlt, hat, hbefore⟩ := findIdx?_eq_some_iff_getElem.mp h
  constructor
  · have hb : text[n] = b := by simpa using hat
    rw [← hb]
    simp
  · intro hmem
    obtain ⟨j, hj, hjb⟩ := getElem_of_mem hmem
    rw [getElem_take] at hjb
    have hjn : j < n := by
      rw [length_take] at hj
      omega
    exact hbefore j hjn (by simpa using hjb)

theorem hashTag_between {key : Bytes} {start n : Nat} (hopen : key.findIdx? (· = 123) = some start)
    (hclose : (key.drop (start + 1)).findIdx? (· = 125) = some (n + 1)) :
    hashTag key = (key.drop (start + 1)).take (n + 1) := by
  simp only [hashTag, hopen, hclose]

theorem hashTag_of_isHashTag {key tag : Bytes} (h : IsHashTag key tag) : hashTag key = tag := by
  obtain ⟨hne, before, after, rfl, hopen, hclose⟩ := h
  have hfirst := findIdx?_append_cons hopen (tag ++ 125 :: after)
  have hdrop : (before ++ 123 :: (tag ++ 125 :: after)).drop (before.length + 1) =
      tag ++ 125 :: after := by
    rw [drop_append]
    simp
  have hpos : tag.length ≠ 0 := fun hzero => hne (length_eq_zero_iff.mp hzero)
  obtain ⟨n, hn⟩ := Nat.exists_eq_succ_of_ne_zero hpos
  have hlast := findIdx?_append_cons hclose after
  rw [← hdrop, hn] at hlast
  rw [hashTag_between hfirst hlast, hdrop]
  exact take_left' hn

theorem isHashTag_or_eq (key : Bytes) : IsHashTag key (hashTag key) ∨ hashTag key = key := by
  cases hopen : key.findIdx? (· = 123) with
  | none =>
    right
    simp only [hashTag, hopen]
  | some start =>
    cases hclose : (key.drop (start + 1)).findIdx? (· = 125) with
    | none =>
      right
      simp only [hashTag, hopen, hclose]
    | some len =>
      cases len with
      | zero =>
        right
        simp only [hashTag, hopen, hclose]
      | succ n =>
        left
        rw [hashTag_between hopen hclose]
        obtain ⟨hkey, hbefore⟩ := split_of_findIdx? hopen
        obtain ⟨hrest, htag⟩ := split_of_findIdx? hclose
        refine ⟨?_, key.take start, (key.drop (start + 1)).drop (n + 1 + 1), ?_, hbefore, htag⟩
        · intro hnil
          have hlt := (findIdx?_eq_some_iff_getElem.mp hclose).1
          have hlen := congrArg List.length hnil
          rw [length_take, length_nil] at hlen
          omega
        · rw [← hrest]
          exact hkey

theorem hashTag_of_no_tag {key : Bytes} (h : ∀ tag, ¬ IsHashTag key tag) : hashTag key = key :=
  (isHashTag_or_eq key).resolve_left (h _)

theorem keySlot_val (key : Bytes) : (keySlot key).val = (crc16 (hashTag key)).toNat % 16384 := rfl

/-- A key's slot is the remainder of its tag, or of the whole key where it has none. -/
theorem keySlot_is_remainder :
    (∀ data : Bytes, bitPoly (crc16 data).toBitVec =
      (wordsPoly (data.map UInt8.toBitVec) * X ^ 16) %ₘ (X ^ 16 + X ^ 12 + X ^ 5 + 1)) ∧
    (∀ key tag, IsHashTag key tag → (keySlot key).val = (crc16 tag).toNat % 16384) ∧
    (∀ key, (∀ tag, ¬ IsHashTag key tag) → (keySlot key).val = (crc16 key).toNat % 16384) ∧
    ∀ key key' tag, IsHashTag key tag → IsHashTag key' tag → keySlot key = keySlot key' := by
  refine ⟨?_, ?_, ?_, ?_⟩
  · intro data
    rw [crc16_toBitVec, bitPoly_crc _ (by decide), crcDivisor_ccitt]
  · intro key tag h
    rw [keySlot_val, hashTag_of_isHashTag h]
  · intro key h
    rw [keySlot_val, hashTag_of_no_tag h]
  · intro key key' tag h h'
    apply Fin.ext
    rw [keySlot_val, keySlot_val, hashTag_of_isHashTag h, hashTag_of_isHashTag h']

end RocketMem
