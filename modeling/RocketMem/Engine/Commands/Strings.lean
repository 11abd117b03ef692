import RocketMem.Engine.Operation

namespace RocketMem

variable {F : Type} [F64 F]

abbrev EngineResult (α : Type) := Except EngineError α

section

variable (env : Env) {R : Type}

/-- The shape of every command that changes a present value in place and creates a missing one:
`with_mut_delta`, then `set` when the key was absent. `fresh` is the value to create, if any. -/
def upsert (key : Bytes) (f : Value F → EngineResult R × Value F × Int) (reply : R)
    (fresh : Option (Value F)) : EngineProgram F (EngineResult R) := do
  let existed ← Engine.withMutDelta env key (.ok none) fun v => ((f v).1.map some, (f v).2)
  match existed, fresh with
  | .error e, _ => return .error e
  | .ok (some r), _ => return .ok r
  | .ok none, none => return .ok reply
  | .ok none, some value =>
    Engine.set env key value
    return .ok reply

/-- One variant of `Value`: how its payload is taken out and put back. -/
structure Variant (F : Type) [F64 F] (T : Type) where
  get : Value F → Option T
  put : T → Value F
  put_of_get : ∀ v x, get v = some x → put x = v

def Variant.edit {T : Type} (w : Variant F T) (f : T → EngineResult R × T × Int) (v : Value F) :
    EngineResult R × Value F × Int :=
  match w.get v with
  | some x => ((f x).1, w.put (f x).2.1, (f x).2.2)
  | none => (.error .wrongType, v, 0)

def Variant.read {T : Type} (w : Variant F T) (f : T → R) (v : Value F) : EngineResult R :=
  match w.get v with
  | some x => .ok (f x)
  | none => .error .wrongType

def Variant.string : Variant F Bytes where
  get | .string b => some b | _ => none
  put := .string
  put_of_get v x h := by cases v <;> cases h; rfl

def Variant.hash : Variant F (HashMap Bytes Bytes) where
  get | .hash m => some m | _ => none
  put := .hash
  put_of_get v x h := by cases v <;> cases h; rfl

def Variant.list : Variant F (List Bytes) where
  get | .list l => some l | _ => none
  put := .list
  put_of_get v x h := by cases v <;> cases h; rfl

def Variant.set : Variant F (Finset Bytes) where
  get | .set s => some s | _ => none
  put := .set
  put_of_get v x h := by cases v <;> cases h; rfl

def Variant.sortedSet : Variant F (SortedSet F) where
  get | .sortedSet z => some z | _ => none
  put := .sortedSet
  put_of_get v x h := by cases v <;> cases h; rfl

def view (key : Bytes) (absent : R) (f : Value F → EngineResult R) :
    EngineProgram F (EngineResult R) := do
  match ← Engine.withRef key with
  | none => return .ok absent
  | some v => return f v

end

section

variable (env : Env)

def setNx (key val : Bytes) : EngineProgram F Bool := do
  if ← Engine.existsKey key then return false
  Engine.set env key (.string val)
  return true

def setXx (key val : Bytes) : EngineProgram F Bool := do
  if !(← Engine.existsKey key) then return false
  Engine.set env key (.string val)
  return true

def stringOf {α : Type} (absent : α) (f : Bytes → α) : Option (Value F) → EngineResult α
  | none => .ok absent
  | some (.string b) => .ok (f b)
  | some _ => .error .wrongType

def getString (key : Bytes) : EngineProgram F (EngineResult (Option Bytes)) := do
  return stringOf none some (← Engine.get key)

def append (key suffix : Bytes) : EngineProgram F (EngineResult Nat) :=
  upsert env key
    (Variant.string.edit fun b => (.ok (b.length + suffix.length), b ++ suffix, suffix.length))
    suffix.length (some (.string suffix))

def strlen (key : Bytes) : EngineProgram F (EngineResult Nat) := do
  return stringOf 0 List.length (← Engine.get key)

def checkedAdd (a b : Int) : Option Int := if InI64 (a + b) then some (a + b) else none

def incrBy (key : Bytes) (delta : Int) : EngineProgram F (EngineResult Int) :=
  upsert env key
    (Variant.string.edit fun b =>
      match parseI64 b with
      | none => (.error .notAnInteger, b, 0)
      | some current =>
        match checkedAdd current delta with
        | none => (.error .incrementOverflow, b, 0)
        | some next => (.ok next, showInt next, ((showInt next).length : Int) - b.length))
    delta (some (.string (showInt delta)))

def getset (key val : Bytes) : EngineProgram F (EngineResult (Option Bytes)) := do
  match ← getString key with
  | .error e => return .error e
  | .ok old =>
    Engine.set env key (.string val)
    return .ok old

def clampIndex (len i : Int) : Int := if i < 0 then max (len + i) 0 else min i len

def getrange (key : Bytes) (start stop : Int) : EngineProgram F (EngineResult Bytes) := do
  match ← Engine.get key with
  | none => return .ok []
  | some (.string buf) =>
    let s := clampIndex buf.length start
    let e := min (clampIndex buf.length stop + 1) buf.length
    if e ≤ s then return .ok []
    return .ok ((buf.drop s.toNat).take (e - s).toNat)
  | some _ => return .error .wrongType

/-- Write `value` at `offset`, zero-padding first when the offset lies past the end. -/
def splice (buf : Bytes) (offset : Nat) (value : Bytes) : Bytes :=
  let stop := offset + value.length
  let buf := buf ++ List.replicate (stop - buf.length) 0
  buf.take offset ++ value ++ buf.drop stop

/-- Whether a vector of length `old` can grow to hold the spliced bytes: a capacity over
`isize::MAX` panics. -/
def spliceFits (old offset : Nat) (value : Bytes) : Bool :=
  decide (offset + value.length ≤ old ∨ ((offset + value.length : Nat) : Int) ≤ i64Max)

def spliceValue (offset : Nat) (value : Bytes) : Value F → Value F × Int
  | .string b =>
    if spliceFits b.length offset value then
      (.string (splice b offset value), ((splice b offset value).length : Int) - b.length)
    else (.string b, 0)
  | v => (v, 0)

def setrange (key : Bytes) (offset : Nat) (value : Bytes) :
    EngineProgram F (EngineResult Nat) := do
  if value.isEmpty then return stringOf 0 List.length (← Engine.get key)
  match ← Engine.perform key (.withMutDelta (spliceValue offset value)) with
  | some (.string b) =>
    if !spliceFits b.length offset value then Program.halt
    Engine.maybeEvict env
    return .ok (splice b offset value).length
  | some _ =>
    Engine.maybeEvict env
    return .error .wrongType
  | none =>
    Engine.maybeEvict env
    if !spliceFits 0 offset value then Program.halt
    Engine.set env key (.string (splice [] offset value))
    return .ok (splice [] offset value).length

def mset : List (Bytes × Bytes) → EngineProgram F Unit
  | [] => return ()
  | (k, v) :: pairs => do
    Engine.set env k (.string v)
    mset pairs

def mget : List Bytes → EngineProgram F (List (Option Bytes))
  | [] => return []
  | k :: keys => do
    let v ← Engine.get k
    let rest ← mget keys
    return (match v with | some (.string b) => some b | _ => none) :: rest

def anyExists : List Bytes → EngineProgram F Bool
  | [] => return false
  | k :: keys => do
    if ← Engine.existsKey k then return true
    anyExists keys

def msetnx (pairs : List (Bytes × Bytes)) : EngineProgram F Bool := do
  if ← anyExists (pairs.map Prod.fst) then return false
  mset env pairs
  return true

end

variable (env : Env)

/-- Give `dst` the expiry `src` had, as both renames do after `set` cleared it. -/
def reapplyTtl (dst : Bytes) : TtlStatus → EngineProgram F Unit
  | .remaining ms => do
    let deadline ← Engine.instantAfter env ms
    let _ ← Engine.expireAt dst deadline
    return ()
  | _ => return ()

def moveEntry (src dst : Bytes) (val : Value F) : EngineProgram F Unit := do
  let ttl ← Engine.ttl src
  Engine.set env dst val
  let _ ← Engine.del src
  reapplyTtl env dst ttl

def rename (src dst : Bytes) : EngineProgram F (EngineResult Unit) := do
  match ← Engine.get src with
  | none => return .error .noSuchKey
  | some val =>
    if src = dst then return .ok ()
    moveEntry env src dst val
    return .ok ()

def renamenx (src dst : Bytes) : EngineProgram F (EngineResult Bool) := do
  match ← Engine.get src with
  | none => return .error .noSuchKey
  | some val =>
    if ← Engine.existsKey dst then return .ok false
    moveEntry env src dst val
    return .ok true

def keyType (key : Bytes) : EngineProgram F Bytes := do
  return (← Engine.get key).elim (txt "none") Value.typeName

def randomkey : EngineProgram F (Option Bytes) := do
  let keys ← Engine.keys
  return keys[env.index keys.length]?

end RocketMem
