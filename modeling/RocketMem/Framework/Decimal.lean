import Mathlib.Data.Nat.Digits.Lemmas
import RocketMem.Framework.Bytes

namespace RocketMem

open List

def i64Min : Int := -9223372036854775808

def i64Max : Int := 9223372036854775807

def u64Max : Nat := 18446744073709551615

def InI64 (i : Int) : Prop := i64Min ≤ i ∧ i ≤ i64Max

instance (i : Int) : Decidable (InI64 i) := inferInstanceAs (Decidable (_ ∧ _))

/-- Two's complement reduction, as `as i64` and release-mode arithmetic do it. -/
def wrapI64 (i : Int) : Int := i.bmod (2 ^ 64)

theorem wrapI64_of_inI64 {i : Int} (h : InI64 i) : wrapI64 i = i := by
  unfold InI64 i64Min i64Max at h
  exact Int.bmod_eq_of_le (by omega) (by omega)

theorem wrapI64_inI64 (i : Int) : InI64 (wrapI64 i) := by
  have hlow := Int.le_bmod (x := i) (m := 2 ^ 64) (by decide)
  have hhigh := Int.bmod_lt (x := i) (m := 2 ^ 64) (by decide)
  unfold InI64 i64Min i64Max wrapI64
  omega

def digitByte (d : Nat) : UInt8 := UInt8.ofNat (48 + d)

def digitValue (b : UInt8) : Option Nat :=
  if 48 ≤ b.toNat ∧ b.toNat ≤ 57 then some (b.toNat - 48) else none

def showNat (n : Nat) : Bytes :=
  if n = 0 then [48] else ((Nat.digits 10 n).map digitByte).reverse

def showInt (i : Int) : Bytes :=
  if i < 0 then 45 :: showNat i.natAbs else showNat i.natAbs

def readDigits : Nat → Bytes → Option Nat
  | acc, [] => some acc
  | acc, b :: bs => (digitValue b).bind fun d => readDigits (acc * 10 + d) bs

def parseNat (b : Bytes) : Option Nat :=
  if b.isEmpty then none else readDigits 0 b

/-- `str::parse::<i64>`: an optional sign, at least one digit, and a value in range. -/
def parseI64 (b : Bytes) : Option Int :=
  let value : Option Int :=
    match b with
    | 45 :: ds => (parseNat ds).map fun n : Nat => -(n : Int)
    | 43 :: ds => (parseNat ds).map fun n : Nat => (n : Int)
    | ds => (parseNat ds).map fun n : Nat => (n : Int)
  value.filter fun i => decide (InI64 i)

theorem inI64_of_parseI64 {b : Bytes} {i : Int} (h : parseI64 b = some i) : InI64 i :=
  of_decide_eq_true (Option.filter_eq_some_iff.mp h).2

/-- `str::parse::<u64>`, which is also `usize` here: no minus sign is accepted. -/
def parseU64 (b : Bytes) : Option Nat :=
  let value : Option Nat :=
    match b with
    | 43 :: ds => parseNat ds
    | ds => parseNat ds
  value.filter fun n => decide (n ≤ u64Max)

theorem toNat_digitByte {d : Nat} (h : d < 10) : (digitByte d).toNat = 48 + d := by
  simp only [digitByte, UInt8.toNat_ofNat']
  omega

theorem digitValue_digitByte {d : Nat} (h : d < 10) : digitValue (digitByte d) = some d := by
  rw [digitValue, toNat_digitByte h, if_pos (by omega)]
  simp

theorem readDigits_append (acc : Nat) (xs ys : Bytes) :
    readDigits acc (xs ++ ys) = (readDigits acc xs).bind fun n => readDigits n ys := by
  induction xs generalizing acc with
  | nil => rfl
  | cons b bs ih =>
    cases h : digitValue b with
    | none => simp [readDigits, h]
    | some d => simp [readDigits, h, ih]

theorem readDigits_reverse (ds : List Nat) (h : ∀ d ∈ ds, d < 10) :
    readDigits 0 (ds.map digitByte).reverse = some (Nat.ofDigits 10 ds) := by
  induction ds with
  | nil => rfl
  | cons d ds ih =>
    have hd : d < 10 := h d mem_cons_self
    have hds := ih fun e he => h e (mem_cons_of_mem d he)
    rw [map_cons, reverse_cons, readDigits_append, hds]
    simp only [Option.bind_some, readDigits, digitValue_digitByte hd, Nat.ofDigits_cons]
    rw [Nat.mul_comm, Nat.add_comm]

theorem showNat_digits (n : Nat) : ∀ b ∈ showNat n, 48 ≤ b.toNat ∧ b.toNat ≤ 57 := by
  intro b hb
  unfold showNat at hb
  split at hb
  · have : b = 48 := by simpa using hb
    subst this
    decide
  · simp only [mem_reverse, mem_map] at hb
    obtain ⟨d, hd, rfl⟩ := hb
    have hlt : d < 10 := Nat.digits_lt_base (by decide) hd
    rw [toNat_digitByte hlt]
    omega

theorem showNat_ne_nil (n : Nat) : showNat n ≠ [] := by
  unfold showNat
  split
  · exact cons_ne_nil _ _
  · next h => simpa using Nat.digits_ne_nil_iff_ne_zero.mpr h

theorem showNat_length_le {n : Nat} (k : Nat) (hk : 0 < k) (h : n < 10 ^ k) :
    (showNat n).length ≤ k := by
  unfold showNat
  split
  · exact hk
  · rw [length_reverse, length_map]
    exact (Nat.digits_length_le_iff (by decide) n).mpr h

theorem parseNat_showNat (n : Nat) : parseNat (showNat n) = some n := by
  have hne : (showNat n).isEmpty = false := by
    rw [isEmpty_eq_false_iff]
    exact showNat_ne_nil n
  rw [parseNat, hne]
  simp only [Bool.false_eq_true, if_false]
  unfold showNat
  split
  · next h => subst h; rfl
  · rw [readDigits_reverse _ fun d hd => Nat.digits_lt_base (by decide) hd, Nat.ofDigits_digits]

theorem showNat_cons (n : Nat) : ∃ b bs, showNat n = b :: bs ∧ b ≠ 45 ∧ b ≠ 43 := by
  cases h : showNat n with
  | nil => exact absurd h (showNat_ne_nil n)
  | cons b bs =>
    have hb := showNat_digits n b (by rw [h]; exact mem_cons_self)
    refine ⟨b, bs, rfl, ?_, ?_⟩ <;> rintro rfl <;> exact absurd hb (by decide)

theorem parseI64_showNat (n : Nat) (h : (n : Int) ≤ i64Max) :
    parseI64 (showNat n) = some (n : Int) := by
  obtain ⟨b, bs, hb, h45, h43⟩ := showNat_cons n
  have hin : InI64 (n : Int) := ⟨by unfold i64Min; omega, h⟩
  have hparse : parseNat (b :: bs) = some n := hb ▸ parseNat_showNat n
  rw [hb]
  unfold parseI64
  split
  · next heq => cases heq; exact absurd rfl h45
  · next heq => cases heq; exact absurd rfl h43
  · simp [hparse, hin]

theorem parseI64_showInt (i : Int) (h : InI64 i) : parseI64 (showInt i) = some i := by
  unfold showInt
  split
  · next hneg =>
    have habs : -((i.natAbs : Nat) : Int) = i := by omega
    unfold parseI64
    split
    · next heq => cases heq; rw [parseNat_showNat, Option.map_some, habs]; simp [h]
    · next heq => cases heq
    · next hne _ => exact absurd rfl (hne _)
  · next hpos =>
    have habs : ((i.natAbs : Nat) : Int) = i := by omega
    have := parseI64_showNat i.natAbs (by rw [habs]; exact h.2)
    rwa [habs] at this

theorem showInt_ascii (i : Int) : ∀ b ∈ showInt i, b.toNat < 128 ∧ b ≠ 13 := by
  have hdigits : ∀ b ∈ showNat i.natAbs, b.toNat < 128 ∧ b ≠ 13 := by
    intro b hb
    have hd := showNat_digits _ b hb
    refine ⟨by omega, ?_⟩
    rintro rfl
    exact absurd hd (by decide)
  intro b hb
  unfold showInt at hb
  split at hb
  · rcases mem_cons.mp hb with rfl | hb
    · decide
    · exact hdigits b hb
  · exact hdigits b hb

end RocketMem
