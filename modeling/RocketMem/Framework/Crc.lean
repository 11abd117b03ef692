import Mathlib.Algebra.CharP.Two
import Mathlib.Algebra.Field.ZMod
import Mathlib.Algebra.Polynomial.Div
import Mathlib.Algebra.Polynomial.OfFn

namespace RocketMem

open Polynomial

/-- The polynomial over the field of two elements whose coefficients are the bits of a word. -/
noncomputable def bitPoly {w : Nat} (v : BitVec w) : (ZMod 2)[X] :=
  Polynomial.ofFn w fun i => if v.getLsbD i then 1 else 0

noncomputable def wordsPoly {k : Nat} (words : List (BitVec k)) : (ZMod 2)[X] :=
  words.foldl (fun p b => p * X ^ k + bitPoly b) 0

section

variable {w : Nat} (u v : BitVec w)

theorem coeff_bitPoly (n : Nat) : (bitPoly v).coeff n = if v.getLsbD n then 1 else 0 := by
  by_cases hn : n < w
  · exact Polynomial.ofFn_coeff_eq_val_of_lt _ hn
  · have hzero : v.getLsbD n = false := BitVec.getLsbD_of_ge v n (Nat.le_of_not_lt hn)
    rw [hzero]
    exact Polynomial.ofFn_coeff_eq_zero_of_ge _ (Nat.le_of_not_lt hn)

theorem bitPoly_zero : bitPoly (0 : BitVec w) = 0 := by
  ext n
  simp [coeff_bitPoly]

theorem degree_bitPoly_lt : (bitPoly v).degree < w := Polynomial.ofFn_degree_lt _

theorem bitPoly_xor : bitPoly (u ^^^ v) = bitPoly u + bitPoly v := by
  ext n
  rw [coeff_add, coeff_bitPoly, coeff_bitPoly, coeff_bitPoly, BitVec.getLsbD_xor]
  cases u.getLsbD n <;> cases v.getLsbD n <;> decide

theorem bitPoly_shiftLeft_one : bitPoly (v <<< 1) = X * bitPoly v + if v.msb then X ^ w else 0 := by
  ext n
  have hmsb : (if v.msb then X ^ w else 0 : (ZMod 2)[X]).coeff n =
      if v.msb ∧ n = w then 1 else 0 := by
    cases v.msb <;> simp [coeff_X_pow]
  rw [coeff_add, hmsb, coeff_bitPoly, BitVec.getLsbD_shiftLeft, BitVec.msb_eq_getLsbD_last]
  cases n with
  | zero =>
    rw [coeff_X_mul_zero]
    have hlast : ¬ (v.getLsbD (w - 1) = true ∧ 0 = w) := by
      rintro ⟨hbit, rfl⟩
      exact absurd (BitVec.lt_of_getLsbD hbit) (Nat.not_lt_zero _)
    simp [hlast]
  | succ n =>
    rw [coeff_X_mul, coeff_bitPoly]
    rcases Nat.lt_trichotomy (n + 1) w with hlt | rfl | hgt
    · simp [hlt, hlt.ne]
    · -- the bit that leaves the word cancels against the leading term
      simp only [lt_irrefl, decide_false, Bool.false_and, Bool.false_eq_true, if_false,
        Nat.add_sub_cancel, and_true]
      exact (CharTwo.add_self_eq_zero _).symm
    · have hzero : v.getLsbD n = false := BitVec.getLsbD_of_ge v n (by omega)
      simp [hzero, hgt.ne', hgt.not_gt]

theorem bitPoly_setWidth_shiftLeft {k : Nat} (b : BitVec k) (hk : k ≤ w) :
    bitPoly (b.setWidth w <<< (w - k)) = bitPoly b * X ^ (w - k) := by
  ext n
  rw [coeff_mul_X_pow', coeff_bitPoly, BitVec.getLsbD_shiftLeft, BitVec.getLsbD_setWidth]
  by_cases hn : w - k ≤ n
  · rw [if_pos hn, coeff_bitPoly]
    by_cases hw : n < w
    · simp [hw, hn.not_gt, show n - (w - k) < w by omega]
    · have hzero : b.getLsbD (n - (w - k)) = false := BitVec.getLsbD_of_ge _ _ (by omega)
      simp [hw, hzero]
  · simp [hn, Nat.lt_of_not_le hn]

end

variable {w k : Nat} (g : BitVec w)

/-- One bit of a division by `X ^ w` plus the polynomial of `g`. -/
def crcShift (v : BitVec w) : BitVec w := if v.msb then (v <<< 1) ^^^ g else v <<< 1

def crcFeed (v : BitVec w) (b : BitVec k) : BitVec w :=
  (crcShift g)^[k] (v ^^^ (b.setWidth w <<< (w - k)))

def crc (words : List (BitVec k)) : BitVec w := words.foldl (crcFeed g) 0

noncomputable def crcDivisor : (ZMod 2)[X] := X ^ w + bitPoly g

theorem crcDivisor_monic : (crcDivisor g).Monic := monic_X_pow_add (degree_bitPoly_lt g)

theorem degree_crcDivisor : (crcDivisor g).degree = w := by
  have hlt : (bitPoly g).degree < (X ^ w : (ZMod 2)[X]).degree := by
    rw [degree_X_pow]
    exact degree_bitPoly_lt g
  rw [crcDivisor, degree_add_eq_left_of_degree_lt hlt, degree_X_pow]

theorem crcShift_dvd (v : BitVec w) : crcDivisor g ∣ bitPoly (crcShift g v) - X * bitPoly v := by
  unfold crcShift
  cases hmsb : v.msb with
  | false =>
    rw [if_neg Bool.false_ne_true, bitPoly_shiftLeft_one, hmsb]
    simp
  | true =>
    rw [if_pos rfl, bitPoly_xor, bitPoly_shiftLeft_one, hmsb, if_pos rfl]
    have hrest : X * bitPoly v + X ^ w + bitPoly g - X * bitPoly v = crcDivisor g := by
      unfold crcDivisor
      ring
    rw [hrest]

theorem crcShift_iterate_dvd (n : Nat) (v : BitVec w) :
    crcDivisor g ∣ bitPoly ((crcShift g)^[n] v) - X ^ n * bitPoly v := by
  induction n with
  | zero => simp
  | succ n ih =>
    have hstep := crcShift_dvd g ((crcShift g)^[n] v)
    have hsum : bitPoly ((crcShift g)^[n + 1] v) - X ^ (n + 1) * bitPoly v =
        (bitPoly (crcShift g ((crcShift g)^[n] v)) - X * bitPoly ((crcShift g)^[n] v)) +
          X * (bitPoly ((crcShift g)^[n] v) - X ^ n * bitPoly v) := by
      rw [Function.iterate_succ_apply']
      ring
    rw [hsum]
    exact dvd_add hstep (ih.mul_left X)

theorem crcFeed_dvd (hk : k ≤ w) (v : BitVec w) (b : BitVec k) (p : (ZMod 2)[X])
    (h : crcDivisor g ∣ bitPoly v - p * X ^ w) :
    crcDivisor g ∣ bitPoly (crcFeed g v b) - (p * X ^ k + bitPoly b) * X ^ w := by
  have hshifts := crcShift_iterate_dvd g k (v ^^^ (b.setWidth w <<< (w - k)))
  rw [bitPoly_xor, bitPoly_setWidth_shiftLeft b hk] at hshifts
  have hw : (X : (ZMod 2)[X]) ^ w = X ^ k * X ^ (w - k) := by
    rw [← pow_add, Nat.add_sub_cancel' hk]
  have hsum : bitPoly (crcFeed g v b) - (p * X ^ k + bitPoly b) * X ^ w =
      (bitPoly (crcFeed g v b) - X ^ k * (bitPoly v + bitPoly b * X ^ (w - k))) +
        X ^ k * (bitPoly v - p * X ^ w) := by
    rw [hw]
    ring
  rw [hsum]
  exact dvd_add hshifts (h.mul_left _)

theorem crc_dvd (hk : k ≤ w) (words : List (BitVec k)) :
    crcDivisor g ∣ bitPoly (crc g words) - wordsPoly words * X ^ w := by
  induction words using List.reverseRecOn with
  | nil =>
    have hzero : bitPoly (crc g ([] : List (BitVec k))) = 0 := bitPoly_zero
    rw [hzero]
    simp [wordsPoly]
  | append_singleton words b ih =>
    have hcrc : crc g (words ++ [b]) = crcFeed g (crc g words) b := by simp [crc]
    have hwords : wordsPoly (words ++ [b]) = wordsPoly words * X ^ k + bitPoly b := by
      simp [wordsPoly]
    rw [hcrc, hwords]
    exact crcFeed_dvd g hk (crc g words) b (wordsPoly words) ih

theorem bitPoly_crc (hk : k ≤ w) (words : List (BitVec k)) :
    bitPoly (crc g words) = (wordsPoly words * X ^ w) %ₘ crcDivisor g := by
  have hsmall : bitPoly (crc g words) %ₘ crcDivisor g = bitPoly (crc g words) := by
    rw [modByMonic_eq_self_iff (crcDivisor_monic g), degree_crcDivisor]
    exact degree_bitPoly_lt _
  rw [← hsmall]
  exact modByMonic_eq_of_dvd_sub (crcDivisor_monic g) (crc_dvd g hk words)

end RocketMem
