import Mathlib.Data.UInt
import RocketMem.Engine.Store
import RocketMem.Framework.Program

namespace RocketMem

/-- What a command reads besides the store: the clocks, the memory ceiling, the iteration order
of hash tables and the outcomes of the random generator. -/
structure Env where
  clock : Clock
  maxmemory : Option Nat
  iter : Finset Bytes → List Bytes
  iter_eq : ∀ s, (iter s : Multiset Bytes) = s.val
  choose : Finset Bytes → Option Bytes
  choose_mem : ∀ s, ∀ m ∈ choose s, m ∈ s
  choose_none : ∀ s, choose s = none → s = ∅
  index : Nat → Nat
  index_lt : ∀ n, 0 < n → index n < n

/-- An unlimited store, tables walked in key order, and the first element whenever a random one
is asked for. -/
def Env.plain (clock : Clock) : Env where
  clock := clock
  maxmemory := none
  iter s := s.sort (· ≤ ·)
  iter_eq s := s.sort_eq (· ≤ ·)
  choose s := (s.sort (· ≤ ·)).head?
  choose_mem s m hm := (Finset.mem_sort _).mp (List.mem_of_mem_head? hm)
  choose_none s h := by
    have hnil : s.sort (· ≤ ·) = [] := List.head?_eq_none_iff.mp h
    exact Finset.val_eq_zero.mp (by rw [← s.sort_eq (· ≤ ·), hnil]; rfl)
  index _ := 0
  index_lt _ h := h

abbrev Env.still : Env := .plain .zero

section

variable (F : Type) [F64 F]

/-- The operations of `Shard` that address one key. `withMutDelta` carries the closure. -/
inductive KeyOp where
  | get
  | set (value : Value F)
  | del
  | existsKey
  | withRef
  | withMutDelta (f : Value F → Value F × Int)
  | expireAt (deadline : Nat)
  | persist
  | ttl

inductive EngineOp where
  | key (k : Bytes) (op : KeyOp F)
  | shardKeys (i : Fin shardCount)
  | shardCounts (i : Fin shardCount)
  | shardBytesUsed (i : Fin shardCount)
  | sampleRecency (i : Fin shardCount) (n : Nat)

end

variable {F : Type} [F64 F]

@[reducible] def KeyOp.Ret : KeyOp F → Type
  | get => Option (Value F)
  | set _ => Unit
  | del => Bool
  | existsKey => Bool
  | withRef => Option (Value F)
  | withMutDelta _ => Option (Value F)
  | expireAt _ => Bool
  | persist => Bool
  | ttl => TtlStatus

@[reducible] def EngineOp.Ret : EngineOp F → Type
  | key _ op => op.Ret
  | shardKeys _ => List Bytes
  | shardCounts _ => Nat × Nat
  | shardBytesUsed _ => UInt64
  | sampleRecency _ _ => List (Bytes × Nat)

def KeyOp.exec (now : Nat) (k : Bytes) (st : Store F) : (op : KeyOp F) → op.Ret × Store F
  | get => st.get now k
  | set value => ((), st.set k value)
  | del => st.del now k
  | existsKey => st.existsKey now k
  | withRef => st.withRef now k
  | withMutDelta f => st.withMutDelta now k f
  | expireAt deadline => st.expireAt now k deadline
  | persist => st.persist now k
  | ttl => (st.ttl now k, st)

def EngineOp.exec (env : Env) : (o : EngineOp F) → Store F → o.Ret × Store F
  | key k op, st => op.exec env.clock.mono k st
  | shardKeys i, st => (env.iter ((st.shards i).keys env.clock.mono), st)
  | shardCounts i, st => ((st.shards i).counts env.clock.mono, st)
  | shardBytesUsed i, st => ((st.shards i).bytesUsed, st)
  | sampleRecency i n, st =>
    (((env.iter (st.shards i).map.keys).take n).map fun k =>
      (k, ((st.shards i).map.lookup k).elim 0 Entry.lastTouched), st)

abbrev EngineProgram (F : Type) [F64 F] (α : Type) := Program (EngineOp F) EngineOp.Ret α

namespace Engine

variable (env : Env)

def perform (k : Bytes) (op : KeyOp F) : EngineProgram F op.Ret :=
  Program.perform (EngineOp.key k op)

def overShards {α : Type} (f : Fin shardCount → EngineProgram F α) : EngineProgram F (List α) :=
  (List.finRange shardCount).mapM f

def memoryUsed : EngineProgram F UInt64 := do
  return (← overShards fun i => Program.perform (EngineOp.shardBytesUsed i)).sum

def sampleForEviction (perShard : Nat) : EngineProgram F (List (Bytes × Nat)) := do
  return (← overShards fun i => Program.perform (EngineOp.sampleRecency i perShard)).flatten

def oldest : List (Bytes × Nat) → Option Bytes
  | [] => none
  | c :: cs => some (cs.foldl (fun best c => if c.2 < best.2 then c else best) c).1

/-- At most `attempts` rounds of eviction while the store is over its ceiling. -/
def evict (ceiling : Nat) : Nat → EngineProgram F Unit
  | 0 => return ()
  | attempts + 1 => do
    if (← memoryUsed).toNat ≤ ceiling then return ()
    match oldest (← sampleForEviction 5) with
    | none => return ()
    | some key =>
      -- `evicted_entry_size` looks the key up before it is deleted
      let _ ← perform key .withRef
      let _ ← perform key .del
      evict ceiling attempts

def maybeEvict : EngineProgram F Unit :=
  match env.maxmemory with
  | none => return ()
  | some ceiling => evict ceiling 1000

def get (key : Bytes) : EngineProgram F (Option (Value F)) := perform key .get

def set (key : Bytes) (value : Value F) : EngineProgram F Unit := do
  perform key (.set value)
  maybeEvict env

def del (key : Bytes) : EngineProgram F Bool := perform key .del

def existsKey (key : Bytes) : EngineProgram F Bool := perform key .existsKey

def withRef (key : Bytes) : EngineProgram F (Option (Value F)) := perform key .withRef

/-- `with_mut_delta`: `f` gives, for a present value, the closure's result, the new value and the
byte delta; `absent` is the closure's result for a missing key. -/
def withMutDelta {R : Type} (key : Bytes) (absent : R) (f : Value F → R × Value F × Int) :
    EngineProgram F R := do
  let old ← perform key (.withMutDelta fun v => (f v).2)
  maybeEvict env
  return match old with
    | some v => (f v).1
    | none => absent

def expireAt (key : Bytes) (deadline : Nat) : EngineProgram F Bool :=
  perform key (.expireAt deadline)

def persist (key : Bytes) : EngineProgram F Bool := perform key .persist

def ttl (key : Bytes) : EngineProgram F TtlStatus := perform key .ttl

def keys : EngineProgram F (List Bytes) := do
  return (← overShards fun i => Program.perform (EngineOp.shardKeys i)).flatten

def keyCounts : EngineProgram F (Nat × Nat) := do
  let counts ← overShards fun i => Program.perform (EngineOp.shardCounts i)
  return counts.foldl (fun total c => (total.1 + c.1, total.2 + c.2)) (0, 0)

/-- One shard per call; the cursor is the next shard's number, and 0 at the end. -/
def scan (cursor : Nat) : EngineProgram F (Nat × List Bytes) :=
  if h : cursor < shardCount then do
    let keys ← Program.perform (EngineOp.shardKeys ⟨cursor, h⟩)
    return (if cursor + 1 < shardCount then cursor + 1 else 0, keys)
  else return (0, [])

/-- `Instant::now() + duration`, which panics when the seconds overflow an `i64`. -/
def instantAfter (ms : Nat) : EngineProgram F Nat :=
  if ((env.clock.mono + ms) / 1000 : Int) ≤ i64Max then return env.clock.mono + ms else .halt

end Engine

def runEngine (env : Env) {α : Type} (p : EngineProgram F α) (st : Store F) : Option α × Store F :=
  p.run (EngineOp.exec env) st

/-- `common::instant_from_unix_ms`: a target in the past collapses to now. -/
def instantFromUnixMs (c : Clock) (target : Int) : Nat := c.mono + (target.toNat - c.wall)

/-- `common::unix_ms_from_instant`, with the wrap-around of its `i64` casts. -/
def unixMsFromInstant (c : Clock) (deadline : Nat) : Int :=
  if c.mono ≤ deadline then wrapI64 (wrapI64 c.wall + wrapI64 ((deadline : Int) - c.mono))
  else wrapI64 (wrapI64 c.wall - wrapI64 ((c.mono : Int) - deadline))

end RocketMem
