import RocketMem.Protocol.Frame

namespace RocketMem

inductive Protocol where
  | resp2
  | resp3
  deriving DecidableEq, Repr

def crlf : Bytes := [13, 10]

def headerLine (kind : UInt8) (text : Bytes) : Bytes := kind :: (text ++ crlf)

mutual

def encode (p : Protocol) : Frame → Bytes
  | .simple s => headerLine 43 s
  | .error s => headerLine 45 s
  | .integer n => headerLine 58 (showInt n)
  | .bulk b => headerLine 36 (showNat b.length) ++ (b ++ crlf)
  | .null =>
    match p with
    | .resp2 => headerLine 36 [45, 49]
    | .resp3 => headerLine 95 []
  | .array items => headerLine 42 (showNat items.length) ++ encodeItems p items
  | .map pairs =>
    match p with
    | .resp2 => headerLine 42 (showNat (pairs.length * 2)) ++ encodePairs p pairs
    | .resp3 => headerLine 37 (showNat pairs.length) ++ encodePairs p pairs
  | .push items =>
    match p with
    | .resp2 => headerLine 42 (showNat items.length) ++ encodeItems p items
    | .resp3 => headerLine 62 (showNat items.length) ++ encodeItems p items
termination_by structural f => f

def encodeItems (p : Protocol) : List Frame → Bytes
  | [] => []
  | f :: fs => encode p f ++ encodeItems p fs
termination_by structural fs => fs

def encodePair (p : Protocol) : Frame × Frame → Bytes
  | (k, v) => encode p k ++ encode p v
termination_by structural kv => kv

def encodePairs (p : Protocol) : List (Frame × Frame) → Bytes
  | [] => []
  | kv :: kvs => encodePair p kv ++ encodePairs p kvs
termination_by structural kvs => kvs

end

inductive DecodeError where
  | notUtf8
  | badInteger
  | badBulkLength
  | badArrayLength
  | unknownType (kind : UInt8)
  deriving DecidableEq, Repr

/-- Outcome of reading one item off the front of a buffer: `ok` carries the item and the number
of bytes it took, `panic` is an out-of-range slice. -/
inductive Parsed (α : Type) where
  | incomplete
  | ok (item : α) (consumed : Nat)
  | invalid (e : DecodeError)
  | panic

namespace Parsed

variable {α β : Type}

def bind : Parsed α → (α → Nat → Parsed β) → Parsed β
  | ok item consumed, f => f item consumed
  | incomplete, _ => incomplete
  | invalid e, _ => invalid e
  | panic, _ => panic

@[simp] theorem bind_ok (a : α) (n : Nat) (f : α → Nat → Parsed β) : (ok a n).bind f = f a n := rfl

@[simp] theorem bind_incomplete (f : α → Nat → Parsed β) : (incomplete).bind f = incomplete := rfl

end Parsed

def findCrlf : Bytes → Option Nat
  | a :: b :: rest => if a = 13 ∧ b = 10 then some 0 else (findCrlf (b :: rest)).map (· + 1)
  | _ => none

/-- The text up to the first CRLF of `body`; `consumed` also counts the type byte and the CRLF. -/
def parseLine (body : Bytes) : Parsed Bytes :=
  match findCrlf body with
  | none => .incomplete
  | some n => if validUtf8 (body.take n) then .ok (body.take n) (1 + n + 2) else .invalid .notUtf8

def parseNumber (e : DecodeError) (body : Bytes) : Parsed Int :=
  (parseLine body).bind fun line n =>
    match parseI64 line with
    | some i => .ok i n
    | none => .invalid e

/-- The payload behind a bulk header: `len as usize` and the sums wrap at 2^64, so a length
below -1 ends in a slice whose end precedes its start. -/
def parseBulkBody (buf : Bytes) (headerLen : Nat) (len : Int) : Parsed Frame :=
  if len = -1 then .ok .null headerLen
  else
    let len := (len % 2 ^ 64).toNat
    let total := (headerLen + len + 2) % 2 ^ 64
    if buf.length < total then .incomplete
    else
      let stop := (headerLen + len) % 2 ^ 64
      if stop < headerLen ∨ buf.length < stop then .panic
      else .ok (.bulk ((buf.drop headerLen).take len)) total

mutual

/-- `parse_frame`; the fuel bounds the depth of arrays. -/
def parseFrame : Nat → Bytes → Parsed Frame
  | _, [] => .incomplete
  | 0, _ => .incomplete
  | fuel + 1, kind :: body =>
    if kind = 43 then (parseLine body).bind fun line n => .ok (.simple line) n
    else if kind = 45 then (parseLine body).bind fun line n => .ok (.error line) n
    else if kind = 58 then (parseNumber .badInteger body).bind fun i n => .ok (.integer i) n
    else if kind = 36 then
      (parseNumber .badBulkLength body).bind fun len n => parseBulkBody (kind :: body) n len
    else if kind = 42 then
      (parseNumber .badArrayLength body).bind fun count n =>
        (parseItems fuel count.toNat ((kind :: body).drop n)).bind fun items m =>
          .ok (.array items) (n + m)
    else .invalid (.unknownType kind)

def parseItems : Nat → Nat → Bytes → Parsed (List Frame)
  | _, 0, _ => .ok [] 0
  | 0, _ + 1, _ => .incomplete
  | fuel + 1, count + 1, buf =>
    (parseFrame fuel buf).bind fun item n =>
      (parseItems fuel count (buf.drop n)).bind fun items m => .ok (item :: items) (n + m)

end

/-- `RespCodec::decode`: one frame off the front of the buffer. Every nested item takes at least
one byte, so the buffer's length bounds the recursion. -/
def decode (buf : Bytes) : Parsed Frame := parseFrame (buf.length + 1) buf

end RocketMem
