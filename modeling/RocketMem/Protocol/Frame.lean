import RocketMem.Framework.Decimal

namespace RocketMem

/-- A RESP value. The texts of `simple` and `error` are UTF-8 and an `integer` is an `i64`
in every frame the server builds or decodes. -/
inductive Frame where
  | simple (s : Bytes)
  | error (s : Bytes)
  | integer (n : Int)
  | bulk (b : Bytes)
  | null
  | array (items : List Frame)
  | map (pairs : List (Frame × Frame))
  | push (items : List Frame)
  deriving Repr

namespace Frame

def isError : Frame → Bool
  | error _ => true
  | _ => false

def command (words : List Bytes) : Frame := .array (words.map .bulk)

end Frame

end RocketMem
