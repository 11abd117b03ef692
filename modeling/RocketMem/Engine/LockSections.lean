import RocketMem.Engine.Keyspace
import RocketMem.Framework.Disturbed

namespace RocketMem

open Function

variable {F : Type} [F64 F]

inductive Found (F : Type) [F64 F] where
  | missing
  | live (v : Value F)
  | expired

namespace Shard

def getRead (now tick : Nat) (s : Shard F) (key : Bytes) : Found F × Shard F :=
  match s.map.lookup key with
  | none => (.missing, s)
  | some e =>
    if e.isExpired now then (.expired, s)
    else (.live e.value, s.put key { e with lastTouched := tick })

/-- `get` under the write lock, which it takes when it has found an expired entry. -/
def getWrite (now : Nat) (s : Shard F) (key : Bytes) : Shard F :=
  match s.map.lookup key with
  | some e => if e.isExpired now then s.drop key e else s
  | none => s

theorem getRead_changesOnly (now tick : Nat) (s : Shard F) (key : Bytes) :
    ChangesOnly key s (s.getRead now tick key).2 := by
  unfold getRead
  split
  · exact changesOnly_refl key s
  · split
    · exact changesOnly_refl key s
    · exact changesOnly_insert key s _ _

theorem getWrite_changesOnly (now : Nat) (s : Shard F) (key : Bytes) :
    ChangesOnly key s (s.getWrite now key) := by
  unfold getWrite
  split
  · split
    · exact changesOnly_drop key s _
    · exact changesOnly_refl key s
  · exact changesOnly_refl key s

theorem getRead_slot (c : Clock) (tick : Nat) (s : Shard F) (key : Bytes) :
    (s.getRead c.mono tick key).2.slot c key = s.slot c key ∧
      ∀ v, (s.getRead c.mono tick key).1 = .live v ↔ (s.slot c key).map Prod.fst = some v := by
  unfold getRead
  cases h : s.map.lookup key with
  | none => simp [s.slot_of_lookup_none c key h]
  | some e =>
    rw [s.slot_of_lookup_some c key h]
    by_cases he : e.isExpired c.mono = true
    · simp [he, Entry.slot_of_expired c he, s.slot_of_lookup_some c key h]
    · simp [he, Entry.slot_stamp c he]

theorem getWrite_slot (c : Clock) (s : Shard F) (key : Bytes) :
    (s.getWrite c.mono key).slot c key = s.slot c key := by
  unfold getWrite
  cases h : s.map.lookup key with
  | none => rfl
  | some e =>
    by_cases he : e.isExpired c.mono = true
    · simp [he, s.slot_of_lookup_some c key h, Entry.slot_of_expired c he]
    · simp [he]

end Shard

namespace Store

variable (now : Nat) (st : Store F) (key : Bytes)

def getRead : Found F × Store F :=
  let r := (st.shardFor key).getRead now st.tick key
  (r.1, st.withShard key r.2 (Shard.getRead_changesOnly now st.tick _ key))

def getWrite : Store F :=
  st.withShard key ((st.shardFor key).getWrite now key) (Shard.getWrite_changesOnly now _ key)

theorem live_getRead (c : Clock) : (st.getRead c.mono key).2.live c = st.live c := by
  have hslot := ((st.shardFor key).getRead_slot c st.tick key).1
  unfold getRead
  rw [live_withShard, hslot]
  exact update_eq_self key (st.live c)

theorem getRead_eq_live (c : Clock) (v : Value F) :
    (st.getRead c.mono key).1 = .live v ↔ (st.live c key).map Prod.fst = some v :=
  ((st.shardFor key).getRead_slot c st.tick key).2 v

theorem live_getWrite (c : Clock) : (st.getWrite c.mono key).live c = st.live c := by
  have hslot := (st.shardFor key).getWrite_slot c key
  unfold getWrite
  rw [live_withShard, hslot]
  exact update_eq_self key (st.live c)

theorem withShard_self (h : (st.shardFor key).ChangesOnly key (st.shardFor key)) :
    st.withShard key (st.shardFor key) h = st := by
  unfold withShard
  congr
  exact update_eq_self (shardIndex key) st.shards

theorem get_sections :
    st.get now key = match (st.getRead now key).1 with
      | .missing => (none, (st.getRead now key).2)
      | .live v => (some v, (st.getRead now key).2)
      | .expired => (none, (st.getRead now key).2.getWrite now key) := by
  cases hlookup : (st.shardFor key).map.lookup key with
  | none =>
    have hread : (st.shardFor key).getRead now st.tick key = (.missing, st.shardFor key) := by
      simp [Shard.getRead, hlookup]
    have hget : (st.shardFor key).get now st.tick key = (none, st.shardFor key) := by
      simp [Shard.get, hlookup]
    simp only [get, getRead, hread, hget]
  | some e =>
    by_cases hexp : e.isExpired now = true
    · have hread : (st.shardFor key).getRead now st.tick key = (.expired, st.shardFor key) := by
        simp [Shard.getRead, hlookup, hexp]
      have hget : (st.shardFor key).get now st.tick key =
          (none, (st.shardFor key).getWrite now key) := by
        simp [Shard.get, Shard.getWrite, hlookup, hexp]
      simp only [get, getRead, hread, hget, withShard_self]
      rfl
    · have hread : (st.shardFor key).getRead now st.tick key =
          (.live e.value, (st.shardFor key).put key { e with lastTouched := st.tick }) := by
        simp [Shard.getRead, hlookup, hexp]
      have hget : (st.shardFor key).get now st.tick key =
          (some e.value, (st.shardFor key).put key { e with lastTouched := st.tick }) := by
        simp [Shard.get, hlookup, hexp]
      simp only [get, getRead, hread, hget]

end Store

/-- The accesses of a command to the store, each under one lock: `get` has two of them, the other
methods of `Shard` one each. -/
inductive LockOp (F : Type) [F64 F] where
  | getRead (k : Bytes)
  | getWrite (k : Bytes)
  | access (o : EngineOp F)

@[reducible] def LockOp.Ret : LockOp F → Type
  | getRead _ => Found F
  | getWrite _ => Unit
  | access o => o.Ret

def LockOp.exec (env : Env) : (o : LockOp F) → Store F → o.Ret × Store F
  | getRead k, st => st.getRead env.clock.mono k
  | getWrite k, st => ((), st.getWrite env.clock.mono k)
  | access o, st => o.exec env st

abbrev LockProgram (F : Type) [F64 F] (α : Type) := Program (LockOp F) LockOp.Ret α

/-- What `Shard::get` does when it has let go of the read lock. -/
def LockProgram.afterRead (k : Bytes) : Found F → LockProgram F (Option (Value F))
  | .missing => return none
  | .live v => return some v
  | .expired => do
    Program.perform (LockOp.getWrite k)
    return none

def LockProgram.get (k : Bytes) : LockProgram F (Option (Value F)) := do
  afterRead k (← Program.perform (LockOp.getRead k))

def EngineOp.sections : (o : EngineOp F) → LockProgram F o.Ret
  | .key k .get => LockProgram.get k
  | o => Program.perform (LockOp.access o)

def EngineProgram.sections {α : Type} (p : EngineProgram F α) : LockProgram F α :=
  p.expand EngineOp.sections

theorem LockProgram.run_get (env : Env) (k : Bytes) (st : Store F) :
    (LockProgram.get k).run (LockOp.exec env) st =
      (some (st.get env.clock.mono k).1, (st.get env.clock.mono k).2) := by
  have hread : (LockProgram.get k).run (LockOp.exec env) st =
      (LockProgram.afterRead k (st.getRead env.clock.mono k).1).run (LockOp.exec env)
        (st.getRead env.clock.mono k).2 := rfl
  rw [hread, Store.get_sections]
  cases (st.getRead env.clock.mono k).1 <;> rfl

theorem EngineOp.run_sections (env : Env) (o : EngineOp F) (st : Store F) :
    o.sections.run (LockOp.exec env) st = (some (o.exec env st).1, (o.exec env st).2) := by
  cases o with
  | key k op =>
    cases op with
    | get => exact LockProgram.run_get env k st
    | _ => rfl
  | _ => rfl

theorem EngineProgram.run_sections (env : Env) {α : Type} (p : EngineProgram F α) (st : Store F) :
    p.sections.run (LockOp.exec env) st = runEngine env p st :=
  Program.run_expand (EngineOp.run_sections env) p st

end RocketMem
