import Mathlib.Algebra.BigOperators.Group.List.Basic
import Mathlib.Algebra.Order.BigOperators.Group.List
import Mathlib.Algebra.Order.Group.Nat
import RocketMem.Framework.Decimal

namespace RocketMem

open List

/-- A binary format: what is written, how it is read back off the front of a byte string, and
the values for which the reader undoes the writer whatever bytes follow. -/
structure BinCodec (α : Type) where
  encode : α → Bytes
  decode : Bytes → Option (α × Bytes)
  valid : α → Prop
  decode_encode : ∀ a rest, valid a → decode (encode a ++ rest) = some (a, rest)

namespace BinCodec

variable {α β : Type}

def takeBytes (n : Nat) (b : Bytes) : Option (Bytes × Bytes) :=
  if n ≤ b.length then some (b.take n, b.drop n) else none

theorem takeBytes_append (a rest : Bytes) : takeBytes a.length (a ++ rest) = some (a, rest) := by
  simp [takeBytes]

def readLe (w : Nat) (b : Bytes) : Option (Nat × Bytes) :=
  (takeBytes w b).map fun p => (ofLeBytes p.1, p.2)

theorem readLe_append (w n : Nat) (rest : Bytes) (h : n < 256 ^ w) :
    readLe w (leBytes w n ++ rest) = some (n, rest) := by
  have ht := takeBytes_append (leBytes w n) rest
  rw [length_leBytes] at ht
  rw [readLe, ht, Option.map_some, ofLeBytes_leBytes w n h]

def nat (w : Nat) : BinCodec Nat where
  encode := leBytes w
  decode := readLe w
  valid n := n < 256 ^ w
  decode_encode := readLe_append w

theorem wrapI64_emod {i : Int} (h : InI64 i) : wrapI64 (i % 2 ^ 64) = i := by
  have hmod : (i % ((2 ^ 64 : Nat) : Int)).bmod (2 ^ 64) = i.bmod (2 ^ 64) := Int.emod_bmod i _
  have hcast : ((2 ^ 64 : Nat) : Int) = 2 ^ 64 := by norm_num
  rw [hcast] at hmod
  exact hmod.trans (wrapI64_of_inI64 h)

def int64 : BinCodec Int where
  encode i := leBytes 8 (i % 2 ^ 64).toNat
  decode b := (readLe 8 b).map fun p => (wrapI64 p.1, p.2)
  valid := InI64
  decode_encode i rest h := by
    have hlt : (i % 2 ^ 64).toNat < 256 ^ 8 := by omega
    have hcast : (((i % 2 ^ 64).toNat : Nat) : Int) = i % 2 ^ 64 := by omega
    rw [readLe_append 8 _ rest hlt, Option.map_some, hcast, wrapI64_emod h]

def bytes : BinCodec Bytes where
  encode b := leBytes 8 b.length ++ b
  decode b := (readLe 8 b).bind fun p => takeBytes p.1 p.2
  valid b := b.length < 256 ^ 8
  decode_encode b rest h := by
    rw [append_assoc, readLe_append 8 b.length (b ++ rest) h, Option.bind_some, takeBytes_append]

def pair (left : BinCodec α) (right : BinCodec β) : BinCodec (α × β) where
  encode p := left.encode p.1 ++ right.encode p.2
  decode b := do
    let (first, b) ← left.decode b
    let (second, b) ← right.decode b
    some ((first, second), b)
  valid p := left.valid p.1 ∧ right.valid p.2
  decode_encode p rest h := by
    simp [append_assoc, left.decode_encode _ _ h.1, right.decode_encode _ _ h.2]

def decodeMany (item : BinCodec α) : Nat → Bytes → Option (List α × Bytes)
  | 0, b => some ([], b)
  | n + 1, b => do
    let (a, b) ← item.decode b
    let (as, b) ← decodeMany item n b
    some (a :: as, b)

theorem decodeMany_encode (item : BinCodec α) (as : List α) (rest : Bytes)
    (h : ∀ a ∈ as, item.valid a) :
    decodeMany item as.length (as.flatMap item.encode ++ rest) = some (as, rest) := by
  induction as with
  | nil => rfl
  | cons a as ih =>
    have ha := item.decode_encode a (as.flatMap item.encode ++ rest) (h a mem_cons_self)
    have has := ih fun x hx => h x (mem_cons_of_mem a hx)
    simp [decodeMany, append_assoc, ha, has]

def list (item : BinCodec α) : BinCodec (List α) where
  encode as := leBytes 8 as.length ++ as.flatMap item.encode
  decode b := (readLe 8 b).bind fun p => decodeMany item p.1 p.2
  valid as := as.length < 256 ^ 8 ∧ ∀ a ∈ as, item.valid a
  decode_encode as rest h := by
    rw [append_assoc, readLe_append 8 as.length _ h.1, Option.bind_some,
      decodeMany_encode item as rest h.2]

def option (item : BinCodec α) : BinCodec (Option α) where
  encode
    | none => [0]
    | some a => 1 :: item.encode a
  decode
    | 0 :: b => some (none, b)
    | 1 :: b => (item.decode b).map fun p => (some p.1, p.2)
    | _ => none
  valid o := ∀ a ∈ o, item.valid a
  decode_encode o rest h := by
    cases o with
    | none => rfl
    | some a =>
      change (item.decode (item.encode a ++ rest)).map _ = _
      rw [item.decode_encode a rest (h a rfl), Option.map_some]

def iso (codec : BinCodec α) (pack : α → β) (unpack : β → α)
    (inverse : ∀ b, pack (unpack b) = b) : BinCodec β where
  encode b := codec.encode (unpack b)
  decode b := (codec.decode b).map fun p => (pack p.1, p.2)
  valid b := codec.valid (unpack b)
  decode_encode b rest h := by
    simp [codec.decode_encode _ _ h, inverse]

theorem encode_bytes_length (b : Bytes) : (bytes.encode b).length = 8 + b.length := by
  simp [bytes]

theorem encode_pair_length (left : BinCodec α) (right : BinCodec β) (p : α × β) :
    ((pair left right).encode p).length = (left.encode p.1).length + (right.encode p.2).length := by
  simp [pair]

theorem encode_list_length (item : BinCodec α) (as : List α) :
    ((list item).encode as).length = 8 + (as.map fun a => (item.encode a).length).sum := by
  simp [list, length_flatMap]

theorem encode_int64_length (i : Int) : (int64.encode i).length = 8 := length_leBytes _ _

structure Sized (codec : BinCodec α) : Prop where
  pos : ∀ a, 0 < (codec.encode a).length
  valid : ∀ a, (codec.encode a).length < 256 ^ 8 → codec.valid a

theorem Sized.bytes : Sized BinCodec.bytes where
  pos b := by
    rw [encode_bytes_length]
    omega
  valid b h := by
    rw [encode_bytes_length] at h
    exact lt_of_le_of_lt (Nat.le_add_left _ _) h

theorem Sized.pair {left : BinCodec α} {right : BinCodec β} (hl : Sized left) (hr : Sized right) :
    Sized (.pair left right) where
  pos p := by
    have := hl.pos p.1
    rw [encode_pair_length]
    omega
  valid p h := by
    rw [encode_pair_length] at h
    exact ⟨hl.valid p.1 (by omega), hr.valid p.2 (by omega)⟩

theorem length_le_sum_map {f : α → Nat} (hf : ∀ a, 0 < f a) (as : List α) :
    as.length ≤ (as.map f).sum := by
  induction as with
  | nil => exact le_rfl
  | cons a as ih =>
    have := hf a
    rw [length_cons, map_cons, sum_cons]
    omega

theorem list_valid {item : BinCodec α} (hpos : ∀ a, 0 < (item.encode a).length) {as : List α}
    (h : ((list item).encode as).length < 256 ^ 8)
    (hitem : ∀ a ∈ as, (item.encode a).length < 256 ^ 8 → item.valid a) : (list item).valid as := by
  rw [encode_list_length] at h
  constructor
  · have := length_le_sum_map hpos as
    omega
  · intro a ha
    have hle : (item.encode a).length ≤ (as.map fun a => (item.encode a).length).sum :=
      single_le_sum (by simp) _ (mem_map_of_mem (f := fun a => (item.encode a).length) ha)
    exact hitem a ha (by omega)

theorem Sized.list {item : BinCodec α} (hitem : Sized item) : Sized (.list item) where
  pos as := by
    rw [encode_list_length]
    omega
  valid as h := list_valid hitem.pos h fun a _ => hitem.valid a

end BinCodec

end RocketMem
