import RocketMem.Framework.Bytes

namespace RocketMem

structure SipState where
  v0 : UInt64
  v1 : UInt64
  v2 : UInt64
  v3 : UInt64

namespace SipState

def rotl (x : UInt64) (n : UInt64) : UInt64 := (x <<< n) ||| (x >>> (64 - n))

def round (s : SipState) : SipState :=
  let v0 := s.v0 + s.v1
  let v1 := rotl s.v1 13 ^^^ v0
  let v0 := rotl v0 32
  let v2 := s.v2 + s.v3
  let v3 := rotl s.v3 16 ^^^ v2
  let v0 := v0 + v3
  let v3 := rotl v3 21 ^^^ v0
  let v2 := v2 + v1
  let v1 := rotl v1 17 ^^^ v2
  let v2 := rotl v2 32
  ⟨v0, v1, v2, v3⟩

def absorb (s : SipState) (word : UInt64) : SipState :=
  let s := round { s with v3 := s.v3 ^^^ word }
  { s with v0 := s.v0 ^^^ word }

def start (k0 k1 : UInt64) : SipState :=
  ⟨k0 ^^^ 0x736f6d6570736575, k1 ^^^ 0x646f72616e646f6d,
    k0 ^^^ 0x6c7967656e657261, k1 ^^^ 0x7465646279746573⟩

def finish (s : SipState) : UInt64 :=
  let s := round (round (round { s with v2 := s.v2 ^^^ 0xff }))
  s.v0 ^^^ s.v1 ^^^ s.v2 ^^^ s.v3

end SipState

/-- Absorb whole eight-byte words; the last, short one carries the total length in its top byte. -/
def sipBlocks (total : Nat) : Bytes → SipState → SipState
  | b0 :: b1 :: b2 :: b3 :: b4 :: b5 :: b6 :: b7 :: rest, s =>
    sipBlocks total rest (s.absorb (UInt64.ofNat (ofLeBytes [b0, b1, b2, b3, b4, b5, b6, b7])))
  | tail, s => s.absorb (UInt64.ofNat (ofLeBytes tail + total % 256 * 2 ^ 56))

def sipHash13 (k0 k1 : UInt64) (b : Bytes) : UInt64 := (sipBlocks b.length b (.start k0 k1)).finish

end RocketMem
