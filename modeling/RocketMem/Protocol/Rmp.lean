import RocketMem.Framework.Incremental
import RocketMem.Protocol.Frame

namespace RocketMem

namespace Rmp

def maxRmpFrameLen : Nat := 64 * 1024 * 1024

def maxRmpNestingDepth : Nat := 32

def putSlice (tag : UInt8) (b : Bytes) : Bytes := tag :: (beBytes 4 b.length ++ b)

def putI64 (n : Int) : Bytes := beBytes 8 (n % 2 ^ 64).toNat

mutual

def encodeFrame : Frame → Except Bytes Bytes
  | .null => .ok [0x00]
  | .simple s => .ok (putSlice 0x01 s)
  | .error s => .ok (putSlice 0x02 s)
  | .integer n => .ok (0x03 :: putI64 n)
  | .bulk b => .ok (putSlice 0x04 b)
  | .array items => (encodeItems items).map fun body => 0x05 :: (beBytes 4 items.length ++ body)
  | .map pairs => (encodePairs pairs).map fun body => 0x06 :: (beBytes 4 pairs.length ++ body)
  | .push _ => .error (txt "RMP does not support pub/sub Push frames")
termination_by structural f => f

def encodeItems : List Frame → Except Bytes Bytes
  | [] => .ok []
  | f :: fs => (encodeFrame f).bind fun b => (encodeItems fs).map fun bs => b ++ bs
termination_by structural fs => fs

def encodePair : Frame × Frame → Except Bytes Bytes
  | (k, v) => (encodeFrame k).bind fun b => (encodeFrame v).map fun bs => b ++ bs
termination_by structural kv => kv

def encodePairs : List (Frame × Frame) → Except Bytes Bytes
  | [] => .ok []
  | kv :: kvs => (encodePair kv).bind fun b => (encodePairs kvs).map fun bs => b ++ bs
termination_by structural kvs => kvs

end

abbrev Reader (α : Type) := Bytes → Except Bytes (α × Bytes)

def takeU8 : Reader UInt8
  | [] => .error (txt "truncated rmp value: expected a tag byte")
  | b :: src => .ok (b, src)

def takeLen : Reader Nat := fun src =>
  if src.length < 4 then .error (txt "truncated rmp value: expected a u32 length")
  else if maxRmpFrameLen < ofBeBytes (src.take 4) then
    .error (txt "rmp value length exceeds MAX_RMP_FRAME_LEN")
  else .ok (ofBeBytes (src.take 4), src.drop 4)

def takeI64 : Reader Int := fun src =>
  if src.length < 8 then .error (txt "truncated rmp value: expected an i64")
  else .ok (wrapI64 (ofBeBytes (src.take 8)), src.drop 8)

def takeBytes (len : Nat) : Reader Bytes := fun src =>
  if src.length < len then
    .error (txt "truncated rmp value: declared length exceeds buffered bytes")
  else .ok (src.take len, src.drop len)

def takeString (len : Nat) : Reader Bytes := fun src =>
  (takeBytes len src).bind fun r =>
    if validUtf8 r.1 then .ok r else .error (txt "rmp Simple/Error value is not valid UTF-8")

def takeSlice (take : Nat → Reader Bytes) (kind : Bytes → Frame) : Reader Frame := fun src =>
  (takeLen src).bind fun r => (take r.1 r.2).map fun s => (kind s.1, s.2)

def takeMany {α : Type} (read : Reader α) : Nat → Reader (List α)
  | 0, src => .ok ([], src)
  | count + 1, src =>
    (read src).bind fun r => (takeMany read count r.2).map fun rs => (r.1 :: rs.1, rs.2)

def takeItems {α : Type} (read : Reader α) (kind : List α → Frame) : Reader Frame := fun src =>
  (takeLen src).bind fun r => (takeMany read r.1 r.2).map fun s => (kind s.1, s.2)

def takePair (read : Reader Frame) : Reader (Frame × Frame) := fun src =>
  (read src).bind fun k => (read k.2).map fun v => ((k.1, v.1), v.2)

/-- `decode_frame_inner`; `room` counts down the levels that `depth` counts up, and is one more
than the levels still allowed. -/
def decodeFrameInner : Nat → Reader Frame
  | 0, _ => .error (txt "rmp value nesting exceeds the maximum depth")
  | room + 1, src =>
    (takeU8 src).bind fun r =>
      if r.1 = 0x00 then .ok (.null, r.2)
      else if r.1 = 0x01 then takeSlice takeString .simple r.2
      else if r.1 = 0x02 then takeSlice takeString .error r.2
      else if r.1 = 0x03 then (takeI64 r.2).map fun s => (.integer s.1, s.2)
      else if r.1 = 0x04 then takeSlice takeBytes .bulk r.2
      else if r.1 = 0x05 then takeItems (decodeFrameInner room) .array r.2
      else if r.1 = 0x06 then takeItems (takePair (decodeFrameInner room)) .map r.2
      else .error (txt "unknown rmp value tag")

def decodeFrame : Reader Frame := decodeFrameInner (maxRmpNestingDepth + 1)

inductive MsgType where
  | request
  | response
  deriving DecidableEq, Repr

def MsgType.toByte : MsgType → UInt8
  | request => 0x00
  | response => 0x01

def MsgType.fromByte (b : UInt8) : Except Bytes MsgType :=
  if b = 0x00 then .ok .request
  else if b = 0x01 then .ok .response
  else .error (txt "unknown rmp msg_type byte")

structure RmpMessage where
  requestId : UInt64
  msgType : MsgType
  frame : Frame

namespace RmpCodec

def magic : Bytes := [0x52, 0x4D]

def version : UInt8 := 0x01

def headerLen : Nat := 16

def encode (item : RmpMessage) : Except Bytes Bytes :=
  (encodeFrame item.frame).bind fun payload =>
    if maxRmpFrameLen < payload.length then
      .error (txt "rmp payload exceeds MAX_RMP_FRAME_LEN")
    else .ok (magic ++ [version, item.msgType.toByte] ++ beBytes 8 item.requestId.toNat ++
      beBytes 4 payload.length ++ payload)

def payloadLen (src : Bytes) : Nat := ofBeBytes ((src.drop 12).take 4)

def header (src : Bytes) : Except Bytes (MsgType × UInt64 × Nat) :=
  if src.take 2 ≠ magic then .error (txt "bad rmp magic")
  else if src.getD 2 0 ≠ version then .error (txt "unsupported rmp version")
  else (MsgType.fromByte (src.getD 3 0)).bind fun msgType =>
    if maxRmpFrameLen < payloadLen src then
      .error (txt "rmp payload_len exceeds MAX_RMP_FRAME_LEN")
    else .ok (msgType, UInt64.ofNat (ofBeBytes ((src.drop 4).take 8)), payloadLen src)

def decode (src : Bytes) : DecodeResult RmpMessage Bytes × Bytes :=
  if src.length < headerLen then (.wait, src)
  else match header src with
    | .error e => (.fail e, src)
    | .ok (msgType, requestId, payloadLen) =>
      if src.length < headerLen + payloadLen then (.wait, src)
      else match decodeFrame ((src.drop headerLen).take payloadLen) with
        | .error e => (.fail e, src.drop (headerLen + payloadLen))
        | .ok (frame, _) =>
          (.item ⟨requestId, msgType, frame⟩, src.drop (headerLen + payloadLen))

end RmpCodec

end Rmp

end RocketMem
