import RocketMem.Engine.Value

namespace RocketMem

/-- The two clocks of a process, in milliseconds: the monotonic reading, and the wall-clock time
at which the monotonic clock read zero. The wall clock fits the `i64` it is cast to. -/
structure Clock where
  boot : Nat
  mono : Nat
  fits : ((boot + mono : Nat) : Int) ≤ i64Max
  deriving DecidableEq, Repr

namespace Clock

def wall (c : Clock) : Nat := c.boot + c.mono

theorem wall_le (c : Clock) : (c.wall : Int) ≤ i64Max := c.fits

def zero : Clock := ⟨0, 0, by decide⟩

end Clock

inductive TtlStatus where
  | noSuchKey
  | noExpiry
  | remaining (ms : Nat)
  deriving DecidableEq, Repr

variable {F : Type} [F64 F]

structure Entry (F : Type) [F64 F] where
  value : Value F
  expiresAt : Option Nat
  lastTouched : Nat
  deriving DecidableEq

def Entry.isExpired (now : Nat) (e : Entry F) : Bool :=
  match e.expiresAt with
  | some deadline => decide (deadline ≤ now)
  | none => false

def entrySize (key : Bytes) (value : Value F) : Nat := key.length + value.approxSize

structure Shard (F : Type) [F64 F] where
  map : HashMap Bytes (Entry F)
  bytesUsed : UInt64

namespace Shard

def new : Shard F := ⟨∅, 0⟩

/-- Remove one entry and its bytes, as every expiry path does. -/
def drop (s : Shard F) (key : Bytes) (e : Entry F) : Shard F :=
  ⟨s.map.erase key, s.bytesUsed - UInt64.ofNat (entrySize key e.value)⟩

def put (s : Shard F) (key : Bytes) (e : Entry F) : Shard F := ⟨s.map.insert key e, s.bytesUsed⟩

def get (now tick : Nat) (s : Shard F) (key : Bytes) : Option (Value F) × Shard F :=
  match s.map.lookup key with
  | none => (none, s)
  | some e =>
    if e.isExpired now then (none, s.drop key e)
    else (some e.value, s.put key { e with lastTouched := tick })

def set (tick : Nat) (s : Shard F) (key : Bytes) (value : Value F) : Shard F :=
  let freed := ((s.map.lookup key).map fun e => entrySize key e.value).getD 0
  ⟨s.map.insert key ⟨value, none, tick⟩,
    s.bytesUsed - UInt64.ofNat freed + UInt64.ofNat (entrySize key value)⟩

def del (now : Nat) (s : Shard F) (key : Bytes) : Bool × Shard F :=
  match s.map.lookup key with
  | none => (false, s)
  | some e => (!e.isExpired now, s.drop key e)

def withRef (now tick : Nat) (s : Shard F) (key : Bytes) : Option (Value F) × Shard F :=
  match s.map.lookup key with
  | some e =>
    if e.isExpired now then (none, s)
    else (some e.value, s.put key { e with lastTouched := tick })
  | none => (none, s)

def addDelta (used : UInt64) (delta : Int) : UInt64 :=
  if 0 < delta then used + UInt64.ofNat delta.toNat
  else if delta < 0 then used - UInt64.ofNat (-delta).toNat
  else used

/-- `with_mut_delta`: `f` is what the closure does to a present value, with the byte delta it
reports. The value the closure was handed is returned, so that the caller can form its reply. -/
def withMutDelta (now tick : Nat) (s : Shard F) (key : Bytes) (f : Value F → Value F × Int) :
    Option (Value F) × Shard F :=
  match s.map.lookup key with
  | none => (none, s)
  | some e =>
    if e.isExpired now then (none, s.drop key e)
    else
      let e' : Entry F := ⟨(f e.value).1, e.expiresAt, tick⟩
      let s' : Shard F := ⟨s.map.insert key e', addDelta s.bytesUsed (f e.value).2⟩
      -- a collection emptied by the closure takes its key with it
      (some e.value, if e'.value.isEmptyCollection then s'.drop key e' else s')

def expireAt (now : Nat) (s : Shard F) (key : Bytes) (deadline : Nat) : Bool × Shard F :=
  match s.map.lookup key with
  | some e =>
    if e.isExpired now then (false, s) else (true, s.put key { e with expiresAt := some deadline })
  | none => (false, s)

def persist (now : Nat) (s : Shard F) (key : Bytes) : Bool × Shard F :=
  match s.map.lookup key with
  | some e =>
    if !e.isExpired now && e.expiresAt.isSome then (true, s.put key { e with expiresAt := none })
    else (false, s)
  | none => (false, s)

def ttl (now : Nat) (s : Shard F) (key : Bytes) : TtlStatus :=
  match s.map.lookup key with
  | none => .noSuchKey
  | some e =>
    if e.isExpired now then .noSuchKey
    else match e.expiresAt with
      | none => .noExpiry
      | some deadline => .remaining (deadline - now)

def live (now : Nat) (s : Shard F) : HashMap Bytes (Entry F) := HashMap.retain (fun _ e => !e.isExpired now) s.map

def keys (now : Nat) (s : Shard F) : Finset Bytes := (s.live now).keys

def counts (now : Nat) (s : Shard F) : Nat × Nat :=
  ((s.live now).keys.card, (HashMap.retain (fun _ e => e.expiresAt.isSome) (s.live now)).keys.card)

def clear (_ : Shard F) : Shard F := new

def removeExpired (now : Nat) (s : Shard F) : Nat × Shard F :=
  let expired := HashMap.retain (fun _ e => e.isExpired now) s.map
  (expired.keys.card,
    ⟨s.live now, s.bytesUsed -
      UInt64.ofNat (expired.entries.map fun e => entrySize e.1 e.2.value).sum⟩)

end Shard

end RocketMem
