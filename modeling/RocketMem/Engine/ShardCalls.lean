import RocketMem.Engine.Accounting
import RocketMem.Framework.RelyGuarantee

namespace RocketMem

variable {F : Type} [F64 F]

inductive Outstanding where
  | nothing
  | entry (key : Bytes)
  | everything

def Outstanding.covers : Outstanding → Bytes → Bool
  | nothing, _ => false
  | entry key, k => decide (k = key)
  | everything, _ => true

/-- The atomic steps of the methods of `Shard`: the lock and its guards, the map behind it, the
stamp of an entry, the counter beside it, and the two clocks. -/
inductive ShardOp (F : Type) [F64 F] where
  | lockRead
  | lockWrite
  | dropRead
  | dropWrite (left : Outstanding)
  | lookup (key : Bytes)
  | insert (key : Bytes) (e : Entry F)
  | remove (key : Bytes)
  | retainLive
  | clearMap
  | touch (key : Bytes) (tick : Nat)
  | fetchAdd (key : Bytes) (n : Nat)
  | fetchSub (key : Bytes) (n : Nat)
  | fetchSubAll (removed : HashMap Bytes (Entry F))
  | storeZero
  | instantNow
  | clockLoad

abbrev ShardOp.Ret : ShardOp F → Type
  | lookup _ | remove _ => Option (Entry F)
  | retainLive => HashMap Bytes (Entry F)
  | instantNow | clockLoad => Nat
  | _ => Unit

/-- What the clocks read at a step; a walk over the map looks at each entry in its own time. -/
structure ShardTimes where
  now : Nat
  nowAt : Bytes → Nat
  tick : Nat

/-- A shard that several threads work on. The last three fields are history: the counter as a number
that is gone once more is subtracted from it than it holds, what of it is there on account of which
key, and for each key the thread that has changed its entry and is not done with it. -/
structure SharedShard (F : Type) [F64 F] where
  map : HashMap Bytes (Entry F)
  bytesUsed : UInt64
  writer : Option Nat
  readers : Finset Nat
  balance : Option Nat
  booked : HashMap Bytes Nat
  owner : Bytes → Option Nat

namespace SharedShard

def sizes (map : HashMap Bytes (Entry F)) : HashMap Bytes Nat :=
  HashMap.filterMapValues (fun k e => some (entrySize k e.value)) map

def atRest (map : HashMap Bytes (Entry F)) : SharedShard F where
  map := map
  bytesUsed := UInt64.ofNat (HashMap.total (fun k e => entrySize k e.value) map)
  writer := none
  readers := ∅
  balance := some (HashMap.total (fun k e => entrySize k e.value) map)
  booked := sizes map
  owner _ := none

def storedAt (s : SharedShard F) (k : Bytes) : Nat :=
  (s.map.lookup k).elim 0 fun e => entrySize k e.value

def bookedAt (s : SharedShard F) (k : Bytes) : Nat := (s.booked.lookup k).getD 0

def expired (x : ShardTimes) (s : SharedShard F) : HashMap Bytes (Entry F) :=
  HashMap.retain (fun k e => e.isExpired (x.nowAt k)) s.map

def count (s : SharedShard F) (u : CounterUpdate) (booked : HashMap Bytes Nat) : SharedShard F :=
  { s with bytesUsed := u.apply s.bytesUsed, balance := s.balance.bind fun n => u.post n,
           booked := booked }

def touch (s : SharedShard F) (key : Bytes) (tick : Nat) : SharedShard F :=
  match s.map.lookup key with
  | some e => { s with map := s.map.insert key { e with lastTouched := tick } }
  | none => s

def change (s : SharedShard F) (i : Nat) (keys : Bytes → Bool) (map : HashMap Bytes (Entry F)) :
    SharedShard F :=
  { s with map := map, owner := fun k => if keys k then some i else s.owner k }

def release (s : SharedShard F) (i : Nat) (keys : Bytes → Bool) : SharedShard F :=
  { s with owner := fun k => if s.owner k = some i ∧ keys k then none else s.owner k }

def unlock (s : SharedShard F) (i : Nat) (left : Outstanding) : SharedShard F :=
  { s.release i (fun k => !left.covers k) with writer := none }

end SharedShard

def ShardOp.changes (x : ShardTimes) (s : SharedShard F) : ShardOp F → Bytes → Bool
  | insert key _, k => decide (k = key)
  | remove key, k => decide (k = key) && (s.map.lookup key).isSome
  | retainLive, k => ((s.expired x).lookup k).isSome
  | clearMap, _ => true
  | _, _ => false

def SharedShard.exec (i : Nat) (x : ShardTimes) :
    (o : ShardOp F) → SharedShard F → Option (o.Ret × SharedShard F)
  | .lockRead, s =>
    if s.writer = none then some ((), { s with readers := insert i s.readers }) else none
  | .lockWrite, s =>
    if s.writer = none ∧ s.readers = ∅ then some ((), { s with writer := some i }) else none
  | .dropRead, s => some ((), { s with readers := s.readers.erase i })
  | .dropWrite left, s => some ((), s.unlock i left)
  | .lookup key, s => some (s.map.lookup key, s)
  | .insert key e, s =>
    some ((), s.change i ((ShardOp.insert key e).changes x s) (s.map.insert key e))
  | .remove key, s =>
    some (s.map.lookup key, s.change i ((ShardOp.remove key).changes x s) (s.map.erase key))
  | .retainLive, s =>
    some (s.expired x, s.change i (ShardOp.retainLive.changes x s)
      (HashMap.retain (fun k e => !e.isExpired (x.nowAt k)) s.map))
  | .clearMap, s => some ((), s.change i (ShardOp.clearMap.changes x s) ∅)
  | .touch key tick, s => some ((), s.touch key tick)
  | .fetchAdd key n, s =>
    some ((), (s.count (.add n) (s.booked.insert key (s.bookedAt key + n))).release i
      fun k => decide (k = key))
  | .fetchSub key n, s =>
    some ((), s.count (.sub n) (s.booked.insert key (s.bookedAt key - n)))
  | .fetchSubAll removed, s =>
    some ((), s.count (.sub (HashMap.total (fun k e => entrySize k e.value) removed))
      (HashMap.retain (fun k _ => (removed.lookup k).isNone) s.booked))
  | .storeZero, s => some ((), (s.count .reset ∅).release i fun _ => true)
  | .instantNow, s => some (x.now, s)
  | .clockLoad, s => some (x.tick, s)

def shardMachine (F : Type) [F64 F] :
    Machine (ShardOp F) ShardOp.Ret ShardTimes (SharedShard F) where
  exec := SharedShard.exec
  unwind _ s := s

abbrev ShardProgram (F : Type) [F64 F] (α : Type) := Program (ShardOp F) ShardOp.Ret α

namespace ShardProgram

def perform (o : ShardOp F) : ShardProgram F o.Ret := Program.perform o

def dropExpired (key : Bytes) : ShardProgram F Unit := do
  match ← perform (.lookup key) with
  | none => return ()
  | some e => do
    if e.isExpired (← perform .instantNow) then
      let _ ← perform (.remove key)
      perform (.fetchSub key (entrySize key e.value))

def get (key : Bytes) : ShardProgram F (Option (Value F)) := do
  perform .lockRead
  match ← perform (.lookup key) with
  | none => do
    perform .dropRead
    return none
  | some e => do
    if !e.isExpired (← perform .instantNow) then
      perform (.touch key (← perform .clockLoad))
      perform .dropRead
      return some e.value
    else
      perform .dropRead
      perform .lockWrite
      dropExpired key
      perform (.dropWrite .nothing)
      return none

/-- `set` lets go of the lock before it counts. -/
def set (key : Bytes) (value : Value F) : ShardProgram F Unit := do
  perform .lockWrite
  let old ← perform (.lookup key)
  perform (.insert key ⟨value, none, ← perform .clockLoad⟩)
  perform (.dropWrite (.entry key))
  match old with
  | none => perform (.fetchAdd key (entrySize key value))
  | some e => do
    perform (.fetchSub key (entrySize key e.value))
    perform (.fetchAdd key (entrySize key value))

def del (key : Bytes) : ShardProgram F Bool := do
  perform .lockWrite
  match ← perform (.remove key) with
  | none => do
    perform (.dropWrite .nothing)
    return false
  | some e => do
    let existed := !e.isExpired (← perform .instantNow)
    perform (.fetchSub key (entrySize key e.value))
    perform (.dropWrite .nothing)
    return existed

def addDelta (key : Bytes) (delta : Int) : ShardProgram F Unit :=
  if 0 < delta then perform (.fetchAdd key delta.toNat)
  else if delta < 0 then perform (.fetchSub key (-delta).toNat)
  else return ()

def withMutDelta (key : Bytes) (f : Value F → Value F × Int) :
    ShardProgram F (Option (Value F)) := do
  perform .lockWrite
  dropExpired key
  match ← perform (.lookup key) with
  | none => do
    perform (.dropWrite .nothing)
    return none
  | some e => do
    perform (.insert key ⟨(f e.value).1, e.expiresAt, ← perform .clockLoad⟩)
    addDelta key (f e.value).2
    if (f e.value).1.isEmptyCollection then
      let _ ← perform (.remove key)
      perform (.fetchSub key (entrySize key (f e.value).1))
    perform (.dropWrite .nothing)
    return some e.value

def removeExpired : ShardProgram F Nat := do
  perform .lockWrite
  let removed ← perform .retainLive
  perform (.fetchSubAll removed)
  perform (.dropWrite .nothing)
  return removed.keys.card

/-- `clear` lets go of the lock, the guard of a single statement, before it resets the counter. -/
def clear : ShardProgram F Unit := do
  perform .lockWrite
  perform .clearMap
  perform (.dropWrite .everything)
  perform .storeZero

end ShardProgram

structure PricedUpdate (F : Type) [F64 F] where
  run : Value F → Value F × Int
  priced : Priced run

inductive ShardCall (F : Type) [F64 F] where
  | get (key : Bytes)
  | set (key : Bytes) (value : Value F)
  | del (key : Bytes)
  | withMutDelta (key : Bytes) (f : PricedUpdate F)
  | removeExpired
  | clear

inductive ShardReply (F : Type) [F64 F] where
  | value (v : Option (Value F))
  | flag (b : Bool)
  | count (n : Nat)
  | done

namespace ShardCall

def program : ShardCall F → ShardProgram F (ShardReply F)
  | get key => return .value (← ShardProgram.get key)
  | set key value => do
    ShardProgram.set key value
    return .done
  | del key => return .flag (← ShardProgram.del key)
  | withMutDelta key f => return .value (← ShardProgram.withMutDelta key f.run)
  | removeExpired => return .count (← ShardProgram.removeExpired)
  | clear => do
    ShardProgram.clear
    return .done

end ShardCall

end RocketMem
