import RocketMem.Engine.Commands.Strings

namespace RocketMem

open Variant

variable {F : Type} [F64 F]

section

variable (env : Env)

def insertDelta (field val : Bytes) : Option Bytes → Int
  | none => field.length + val.length + 16
  | some old => (val.length : Int) - old.length

def hset (key field val : Bytes) : EngineProgram F (EngineResult Bool) :=
  upsert env key
    (hash.edit fun m =>
      (.ok (m.lookup field).isNone, m.insert field val, insertDelta field val (m.lookup field)))
    true (some (.hash ((∅ : HashMap Bytes Bytes).insert field val)))

def hget (key field : Bytes) : EngineProgram F (EngineResult (Option Bytes)) :=
  view key none (hash.read fun m => m.lookup field)

def removeFields : List Bytes → HashMap Bytes Bytes → Int × HashMap Bytes Bytes × Int
  | [], m => (0, m, 0)
  | field :: fields, m =>
    match m.lookup field with
    | none => removeFields fields m
    | some old =>
      let r := removeFields fields (m.erase field)
      (r.1 + 1, r.2.1, r.2.2 - (field.length + old.length + 16))

def hdel (key : Bytes) (fields : List Bytes) : EngineProgram F (EngineResult Int) :=
  Engine.withMutDelta env key (.ok 0) (hash.edit fun m =>
    (.ok (removeFields fields m).1, (removeFields fields m).2))

def hgetall (key : Bytes) : EngineProgram F (EngineResult (HashMap Bytes Bytes)) := do
  match ← Engine.get key with
  | none => return .ok ∅
  | some v => return hash.read id v

def hexists (key field : Bytes) : EngineProgram F (EngineResult Bool) :=
  view key false (hash.read fun m => (m.lookup field).isSome)

def hlen (key : Bytes) : EngineProgram F (EngineResult Nat) :=
  view key 0 (hash.read fun m => m.keys.card)

def hincrby (key field : Bytes) (delta : Int) : EngineProgram F (EngineResult Int) :=
  upsert env key
    (hash.edit fun m =>
      match (m.lookup field).elim (some 0) parseI64 with
      | none => (.error .notAnInteger, m, 0)
      | some current =>
        match checkedAdd current delta with
        | none => (.error .incrementOverflow, m, 0)
        | some next =>
          (.ok next, m.insert field (showInt next),
            insertDelta field (showInt next) (m.lookup field)))
    delta (some (.hash ((∅ : HashMap Bytes Bytes).insert field (showInt delta))))

def hkeys (key : Bytes) : EngineProgram F (EngineResult (List Bytes)) := do
  return (← hgetall key).map fun m => env.iter m.keys

def hvals (key : Bytes) : EngineProgram F (EngineResult (List Bytes)) := do
  return (← hgetall key).map fun m => (env.iter m.keys).filterMap fun k => m.lookup k

def hmget (key : Bytes) (fields : List Bytes) :
    EngineProgram F (EngineResult (List (Option Bytes))) :=
  view key (fields.map fun _ => none) (hash.read fun m => fields.map fun f => m.lookup f)

def hsetnx (key field val : Bytes) : EngineProgram F (EngineResult Bool) :=
  upsert env key
    (hash.edit fun m =>
      if (m.lookup field).isSome then (.ok false, m, 0)
      else (.ok true, m.insert field val, field.length + val.length + 16))
    true (some (.hash ((∅ : HashMap Bytes Bytes).insert field val)))

end

section

variable (env : Env)

inductive ListEnd where
  | left
  | right
  deriving DecidableEq, Repr

def elementsSize (l : List Bytes) : Int := ((l.map fun b => b.length + 8).sum : Nat)

def rpush (key : Bytes) (values : List Bytes) : EngineProgram F (EngineResult Nat) :=
  upsert env key
    (list.edit fun l => (.ok (l.length + values.length), l ++ values, elementsSize values))
    values.length (if values.isEmpty then none else some (.list values))

/-- Each value goes to the front in turn, so the last one ends up first. -/
def lpush (key : Bytes) (values : List Bytes) : EngineProgram F (EngineResult Nat) :=
  upsert env key
    (list.edit fun l => (.ok (l.length + values.length), values.reverse ++ l, elementsSize values))
    values.length (if values.isEmpty then none else some (.list values.reverse))

def poppedDelta : Option Bytes → Int
  | some b => -(b.length + 8)
  | none => 0

def popEnd : ListEnd → List Bytes → Option Bytes × List Bytes
  | .left, l => (l.head?, l.tail)
  | .right, l => (l.getLast?, l.dropLast)

def popFrom (stop : ListEnd) : Value F → EngineResult (Option Bytes) × Value F × Int :=
  list.edit fun l => (.ok (popEnd stop l).1, (popEnd stop l).2, poppedDelta (popEnd stop l).1)

def rpop (key : Bytes) : EngineProgram F (EngineResult (Option Bytes)) :=
  Engine.withMutDelta env key (.ok none) (popFrom .right)

def lpop (key : Bytes) : EngineProgram F (EngineResult (Option Bytes)) :=
  Engine.withMutDelta env key (.ok none) (popFrom .left)

def llen (key : Bytes) : EngineProgram F (EngineResult Nat) := view key 0 (list.read List.length)

def normalizeRange (len start stop : Int) : Nat × Nat :=
  let s := clampIndex len start
  let e := clampIndex len stop + 1
  if e ≤ s then (0, 0) else (s.toNat, e.toNat)

def slice (len : Nat) (l : List Bytes) (start stop : Int) : List Bytes :=
  let r := normalizeRange len start stop
  (l.drop r.1).take (r.2 - r.1)

def lrange (key : Bytes) (start stop : Int) : EngineProgram F (EngineResult (List Bytes)) :=
  view key [] (list.read fun l => slice l.length l start stop)

def position (len index : Int) : Option Nat :=
  let i := if index < 0 then len + index else index
  if i < 0 ∨ len ≤ i then none else some i.toNat

def lindex (key : Bytes) (index : Int) : EngineProgram F (EngineResult (Option Bytes)) :=
  view key none (list.read fun l => (position l.length index).bind fun i => l[i]?)

def lset (key : Bytes) (index : Int) (val : Bytes) : EngineProgram F (EngineResult Unit) :=
  Engine.withMutDelta env key (.error .noSuchKey) (list.edit fun l =>
    match position l.length index with
    | none => (.error .indexOutOfRange, l, 0)
    | some i => (.ok (), l.set i val, (val.length : Int) - (l.getD i []).length))

def ltrim (key : Bytes) (start stop : Int) : EngineProgram F (EngineResult Unit) :=
  Engine.withMutDelta env key (.ok ()) (list.edit fun l =>
    let r := normalizeRange l.length start stop
    let kept := l.take r.2
    (.ok (), kept.drop r.1, -(elementsSize (l.drop r.2) + elementsSize (kept.take r.1))))

def removeFirst (val : Bytes) : Nat → List Bytes → List Bytes × Nat
  | _, [] => ([], 0)
  | 0, l => (l, 0)
  | n + 1, b :: l =>
    if b = val then ((removeFirst val n l).1, (removeFirst val n l).2 + 1)
    else (b :: (removeFirst val (n + 1) l).1, (removeFirst val (n + 1) l).2)

/-- `lrem`'s removal: from the head for a positive count, from the tail for a negative one, and
with no limit for zero. -/
def removeCount (val : Bytes) (count : Int) (l : List Bytes) : List Bytes × Nat :=
  if 0 ≤ count then removeFirst val (if count = 0 then l.length else count.toNat) l
  else
    let r := removeFirst val count.natAbs l.reverse
    (r.1.reverse, r.2)

def lrem (key : Bytes) (count : Int) (val : Bytes) : EngineProgram F (EngineResult Nat) :=
  Engine.withMutDelta env key (.ok 0) (list.edit fun l =>
    let r := removeCount val count l
    (.ok r.2, r.1, -(r.2 * (val.length + 8) : Nat)))

def pushEnd (stop : ListEnd) (val : Bytes) (l : List Bytes) : List Bytes :=
  match stop with
  | .left => val :: l
  | .right => l ++ [val]

def pushOne (key : Bytes) (stop : ListEnd) (val : Bytes) : EngineProgram F (EngineResult Unit) :=
  upsert env key (list.edit fun l => (.ok (), pushEnd stop val l, val.length + 8))
    () (some (.list [val]))

def pushPopped (source destination : Bytes) (start stop : ListEnd) :
    EngineResult (Option Bytes) → EngineProgram F (EngineResult (Option Bytes))
  | .error e => return .error e
  | .ok none => return .ok none
  | .ok (some val) => do
    match ← pushOne env destination stop val with
    | .error e =>
      -- the destination changed type meanwhile: put the element back
      let _ ← pushOne env source start val
      return .error e
    | .ok () => return .ok (some val)

def lmove (source destination : Bytes) (start stop : ListEnd) :
    EngineProgram F (EngineResult (Option Bytes)) := do
  match ← Engine.withRef destination with
  | some (.string _) | some (.hash _) | some (.set _) | some (.sortedSet _) =>
    return .error .wrongType
  | none | some (.list _) =>
    let popped ← Engine.withMutDelta env source (.ok none) (popFrom start)
    pushPopped env source destination start stop popped

def linsert (key : Bytes) (before : Bool) (pivot val : Bytes) :
    EngineProgram F (EngineResult Int) :=
  Engine.withMutDelta env key (.ok 0) (list.edit fun l =>
    match l.findIdx? (· = pivot) with
    | none => (.ok (-1), l, 0)
    | some i =>
      let pos := if before then i else i + 1
      (.ok (l.length + 1), l.insertIdx pos val, val.length + 8))

end

section

variable (env : Env)

def getSet (key : Bytes) : EngineProgram F (EngineResult (Finset Bytes)) := do
  match ← Engine.get key with
  | none => return .ok ∅
  | some v => return set.read id v

def addMembers : List Bytes → Finset Bytes → Int × Finset Bytes × Int
  | [], s => (0, s, 0)
  | m :: ms, s =>
    if m ∈ s then addMembers ms s
    else
      let r := addMembers ms (insert m s)
      (r.1 + 1, r.2.1, r.2.2 + (m.length + 8))

def sadd (key : Bytes) (members : List Bytes) : EngineProgram F (EngineResult Int) :=
  upsert env key (set.edit fun s => (.ok (addMembers members s).1, (addMembers members s).2))
    members.toFinset.card (if members.isEmpty then none else some (.set members.toFinset))

def removeMembers : List Bytes → Finset Bytes → Int × Finset Bytes × Int
  | [], s => (0, s, 0)
  | m :: ms, s =>
    if m ∈ s then
      let r := removeMembers ms (s.erase m)
      (r.1 + 1, r.2.1, r.2.2 - (m.length + 8))
    else removeMembers ms s

def srem (key : Bytes) (members : List Bytes) : EngineProgram F (EngineResult Int) :=
  Engine.withMutDelta env key (.ok 0)
    (set.edit fun s => (.ok (removeMembers members s).1, (removeMembers members s).2))

def smembers (key : Bytes) : EngineProgram F (EngineResult (Finset Bytes)) := getSet key

def sismember (key member : Bytes) : EngineProgram F (EngineResult Bool) :=
  view key false (set.read fun s => decide (member ∈ s))

def scard (key : Bytes) : EngineProgram F (EngineResult Nat) := view key 0 (set.read Finset.card)

def getSets : List Bytes → EngineProgram F (EngineResult (List (Finset Bytes)))
  | [] => return .ok []
  | k :: keys => do
    match ← getSet k with
    | .error e => return .error e
    | .ok s => return (← getSets keys).map (s :: ·)

def interAll : List (Finset Bytes) → Finset Bytes
  | [] => ∅
  | s :: sets => sets.foldl (· ∩ ·) s

def sinter (keys : List Bytes) : EngineProgram F (EngineResult (Finset Bytes)) := do
  return (← getSets keys).map interAll

def sunion (keys : List Bytes) : EngineProgram F (EngineResult (Finset Bytes)) := do
  return (← getSets keys).map fun sets => sets.foldl (· ∪ ·) ∅

def diffAll : List (Finset Bytes) → Finset Bytes
  | [] => ∅
  | s :: sets => sets.foldl (· \ ·) s

def sdiff (keys : List Bytes) : EngineProgram F (EngineResult (Finset Bytes)) := do
  return (← getSets keys).map diffAll

def storeOrDelete (dest : Bytes) (result : Finset Bytes) : EngineProgram F Nat := do
  if result = ∅ then
    let _ ← Engine.del dest
  else Engine.set env dest (.set result)
  return result.card

def storeResult (dest : Bytes) (result : EngineProgram F (EngineResult (Finset Bytes))) :
    EngineProgram F (EngineResult Nat) := do
  match ← result with
  | .error e => return .error e
  | .ok s => return .ok (← storeOrDelete env dest s)

def sinterstore (dest : Bytes) (keys : List Bytes) : EngineProgram F (EngineResult Nat) :=
  storeResult env dest (sinter keys)

def sunionstore (dest : Bytes) (keys : List Bytes) : EngineProgram F (EngineResult Nat) :=
  storeResult env dest (sunion keys)

def sdiffstore (dest : Bytes) (keys : List Bytes) : EngineProgram F (EngineResult Nat) :=
  storeResult env dest (sdiff keys)

def spop (key : Bytes) : EngineProgram F (EngineResult (Option Bytes)) :=
  Engine.withMutDelta env key (.ok none) (set.edit fun s =>
    match env.choose s with
    | none => (.ok none, s, 0)
    | some m => (.ok (some m), s.erase m, -(m.length + 8)))

def srandmember (key : Bytes) : EngineProgram F (EngineResult (Option Bytes)) := do
  return (← getSet key).map env.choose

end

variable (env : Env)

def memberDelta (member : Bytes) (isNew : Bool) : Int := if isNew then member.length + 24 else 0

def zadd (key : Bytes) (score : F) (member : Bytes) : EngineProgram F (EngineResult Bool) :=
  upsert env key
    (sortedSet.edit fun z =>
      (.ok (z.score member).isNone, z.insert member score,
        memberDelta member (z.score member).isNone))
    true (some (.sortedSet (SortedSet.new.insert member score)))

def zscore (key member : Bytes) : EngineProgram F (EngineResult (Option F)) :=
  view key none (sortedSet.read fun z => z.score member)

def removeScored : List Bytes → SortedSet F → Int × SortedSet F × Int
  | [], z => (0, z, 0)
  | m :: ms, z =>
    if (z.remove m).2 then
      let r := removeScored ms (z.remove m).1
      (r.1 + 1, r.2.1, r.2.2 - (m.length + 24))
    else removeScored ms z

def zrem (key : Bytes) (members : List Bytes) : EngineProgram F (EngineResult Int) :=
  Engine.withMutDelta env key (.ok 0)
    (sortedSet.edit fun z => (.ok (removeScored members z).1, (removeScored members z).2))

def zcard (key : Bytes) : EngineProgram F (EngineResult Nat) := view key 0 (sortedSet.read SortedSet.len)

def zincrby (key : Bytes) (delta : F) (member : Bytes) : EngineProgram F (EngineResult F) :=
  upsert env key
    (sortedSet.edit fun z =>
      let score := F64.add ((z.score member).getD (F64.ofNat 0)) delta
      (.ok score, z.insert member score, memberDelta member (z.score member).isNone))
    delta (some (.sortedSet (SortedSet.new.insert member delta)))

def zrange (key : Bytes) (start stop : Int) : EngineProgram F (EngineResult (List Bytes)) :=
  view key [] (sortedSet.read fun z => slice z.len z.membersAscending start stop)

def zrank (key member : Bytes) : EngineProgram F (EngineResult (Option Nat)) :=
  view key none (sortedSet.read fun z => z.membersAscending.findIdx? (· = member))

end RocketMem
