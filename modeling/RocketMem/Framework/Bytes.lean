import Mathlib.Algebra.Group.Nat.Defs
import Mathlib.Data.List.Basic
import Mathlib.Data.List.Lex
import Mathlib.Order.Lex

namespace RocketMem

open List

abbrev Bytes := List UInt8

def txt (s : String) : Bytes := s.toList.map fun c => UInt8.ofNat c.toNat

instance Byte.linearOrder : LinearOrder UInt8 :=
  LinearOrder.lift' UInt8.toNat fun _ _ => UInt8.toNat_inj.mp

instance Bytes.lawfulBEq : LawfulBEq Bytes := inferInstance

instance Bytes.le_trans : IsTrans Bytes (· ≤ ·) := inferInstance

instance Bytes.le_antisymm : Std.Antisymm (α := Bytes) (· ≤ ·) := inferInstance

instance Bytes.le_total : Std.Total (α := Bytes) (· ≤ ·) := inferInstance

def asciiUpper (b : Bytes) : Bytes :=
  b.map fun c => if 97 ≤ c.toNat ∧ c.toNat ≤ 122 then c - 32 else c

def asciiLower (b : Bytes) : Bytes :=
  b.map fun c => if 65 ≤ c.toNat ∧ c.toNat ≤ 90 then c + 32 else c

def isAscii (b : Bytes) : Bool := b.all fun c => c.toNat < 128

def isContinuation (b : UInt8) : Bool := 0x80 ≤ b.toNat && b.toNat ≤ 0xBF

def utf8Width (b : UInt8) : Nat :=
  if b.toNat < 0x80 then 1
  else if 0xC2 ≤ b.toNat ∧ b.toNat ≤ 0xDF then 2
  else if 0xE0 ≤ b.toNat ∧ b.toNat ≤ 0xEF then 3
  else if 0xF0 ≤ b.toNat ∧ b.toNat ≤ 0xF4 then 4
  else 0

def utf8SecondOk (lead second : UInt8) : Bool :=
  match lead.toNat with
  | 0xE0 => 0xA0 ≤ second.toNat && second.toNat ≤ 0xBF
  | 0xED => 0x80 ≤ second.toNat && second.toNat ≤ 0x9F
  | 0xF0 => 0x90 ≤ second.toNat && second.toNat ≤ 0xBF
  | 0xF4 => 0x80 ≤ second.toNat && second.toNat ≤ 0x8F
  | _ => isContinuation second

/-- The first chunk of a byte string: its length, and whether it is one whole character
or a maximal broken start of one. -/
def utf8Chunk : Bytes → Nat × Bool
  | [] => (0, true)
  | b0 :: rest =>
    match utf8Width b0, rest with
    | 0, _ => (1, false)
    | 1, _ => (1, true)
    | _, [] => (1, false)
    | w, b1 :: rest =>
      if !utf8SecondOk b0 b1 then (1, false)
      else if w = 2 then (2, true)
      else match rest with
        | [] => (2, false)
        | b2 :: rest =>
          if !isContinuation b2 then (2, false)
          else if w = 3 then (3, true)
          else match rest with
            | [] => (3, false)
            | b3 :: _ => if isContinuation b3 then (4, true) else (3, false)

def validUtf8Fuel : Nat → Bytes → Bool
  | _, [] => true
  | 0, _ => false
  | fuel + 1, b => (utf8Chunk b).2 && validUtf8Fuel fuel (b.drop (utf8Chunk b).1)

/-- `std::str::from_utf8(b).is_ok()`. -/
def validUtf8 (b : Bytes) : Bool := validUtf8Fuel b.length b

def lossyFuel : Nat → Bytes → Bytes
  | _, [] => []
  | 0, _ => []
  | fuel + 1, b =>
    (if (utf8Chunk b).2 then b.take (utf8Chunk b).1 else [0xEF, 0xBF, 0xBD]) ++
      lossyFuel fuel (b.drop (utf8Chunk b).1)

/-- `String::from_utf8_lossy`: each broken chunk becomes one replacement character. -/
def fromUtf8Lossy (b : Bytes) : Bytes := lossyFuel b.length b

theorem utf8Chunk_ascii {c : UInt8} (hc : c.toNat < 128) (cs : Bytes) :
    utf8Chunk (c :: cs) = (1, true) := by
  have hwidth : utf8Width c = 1 := by simp [utf8Width, hc]
  simp [utf8Chunk, hwidth]

theorem validUtf8Fuel_of_ascii (fuel : Nat) (b : Bytes) (hlen : b.length ≤ fuel)
    (h : ∀ c ∈ b, c.toNat < 128) : validUtf8Fuel fuel b = true := by
  induction fuel generalizing b with
  | zero =>
    have : b = [] := length_eq_zero_iff.mp (Nat.le_zero.mp hlen)
    subst this
    rfl
  | succ fuel ih =>
    cases b with
    | nil => rfl
    | cons c cs =>
      simp only [validUtf8Fuel, utf8Chunk_ascii (h c mem_cons_self), Bool.true_and,
        drop_succ_cons, drop_zero]
      refine ih cs ?_ fun d hd => h d (mem_cons_of_mem c hd)
      simpa using hlen

theorem validUtf8_of_ascii (b : Bytes) (h : ∀ c ∈ b, c.toNat < 128) : validUtf8 b = true :=
  validUtf8Fuel_of_ascii b.length b (le_refl _) h

theorem lossyFuel_of_ascii (fuel : Nat) (b : Bytes) (hlen : b.length ≤ fuel)
    (h : ∀ c ∈ b, c.toNat < 128) : lossyFuel fuel b = b := by
  induction fuel generalizing b with
  | zero =>
    have : b = [] := length_eq_zero_iff.mp (Nat.le_zero.mp hlen)
    subst this
    rfl
  | succ fuel ih =>
    cases b with
    | nil => rfl
    | cons c cs =>
      have hrest := ih cs (by simpa using hlen) fun d hd => h d (mem_cons_of_mem c hd)
      simp [lossyFuel, utf8Chunk_ascii (h c mem_cons_self), hrest]

theorem fromUtf8Lossy_of_ascii {b : Bytes} (h : isAscii b = true) : fromUtf8Lossy b = b := by
  refine lossyFuel_of_ascii b.length b (le_refl _) fun c hc => ?_
  simpa using all_eq_true.mp h c hc

def leBytes : Nat → Nat → Bytes
  | 0, _ => []
  | w + 1, n => UInt8.ofNat n :: leBytes w (n / 256)

def ofLeBytes : Bytes → Nat
  | [] => 0
  | b :: bs => b.toNat + 256 * ofLeBytes bs

@[simp] theorem length_leBytes (w n : Nat) : (leBytes w n).length = w := by
  induction w generalizing n with
  | zero => rfl
  | succ w ih => simp [leBytes, ih]

theorem ofLeBytes_leBytes (w n : Nat) (h : n < 256 ^ w) : ofLeBytes (leBytes w n) = n := by
  induction w generalizing n with
  | zero =>
    have : n = 0 := by simpa using h
    subst this
    rfl
  | succ w ih =>
    have hdiv : n / 256 < 256 ^ w := by
      rw [Nat.div_lt_iff_lt_mul (by decide)]
      simpa [Nat.pow_succ] using h
    have hhead : (UInt8.ofNat n).toNat = n % 256 := by simp [UInt8.toNat_ofNat']
    simp only [leBytes, ofLeBytes, ih _ hdiv, hhead]
    omega

theorem leBytes_succ_head (w n : Nat) :
    leBytes (w + 1) n = UInt8.ofNat (n % 256) :: leBytes w (n / 256) := by
  have : UInt8.ofNat n = UInt8.ofNat (n % 256) := by
    apply UInt8.toNat_inj.mp
    simp [UInt8.toNat_ofNat']
  rw [leBytes, this]

theorem ofLeBytes_lt (b : Bytes) : ofLeBytes b < 256 ^ b.length := by
  induction b with
  | nil => exact Nat.one_pos
  | cons c b ih =>
    have hc := c.toNat_lt
    rw [ofLeBytes, length_cons, Nat.pow_succ]
    omega

theorem leBytes_ofLeBytes (b : Bytes) : leBytes b.length (ofLeBytes b) = b := by
  induction b with
  | nil => rfl
  | cons c b ih =>
    have hc := c.toNat_lt
    have hhead : UInt8.ofNat (c.toNat + 256 * ofLeBytes b) = c := by
      apply UInt8.toNat_inj.mp
      rw [UInt8.toNat_ofNat']
      omega
    have hrest : (c.toNat + 256 * ofLeBytes b) / 256 = ofLeBytes b := by omega
    rw [length_cons, ofLeBytes, leBytes, hhead, hrest, ih]

def beBytes (w n : Nat) : Bytes := (leBytes w n).reverse

def ofBeBytes (b : Bytes) : Nat := ofLeBytes b.reverse

@[simp] theorem length_beBytes (w n : Nat) : (beBytes w n).length = w := by
  rw [beBytes, length_reverse, length_leBytes]

theorem ofBeBytes_beBytes {w n : Nat} (h : n < 256 ^ w) : ofBeBytes (beBytes w n) = n := by
  rw [ofBeBytes, beBytes, reverse_reverse, ofLeBytes_leBytes w n h]

theorem ofBeBytes_lt (b : Bytes) : ofBeBytes b < 256 ^ b.length := by
  have hlt := ofLeBytes_lt b.reverse
  rwa [length_reverse] at hlt

theorem beBytes_ofBeBytes {w : Nat} {b : Bytes} (h : b.length = w) :
    beBytes w (ofBeBytes b) = b := by
  have hinv := leBytes_ofLeBytes b.reverse
  rw [length_reverse, h] at hinv
  rw [beBytes, ofBeBytes, hinv, reverse_reverse]

end RocketMem
