import RocketMem.Engine.Keyspace
import RocketMem.Framework.BinCodec

namespace RocketMem

open BinCodec

variable {F : Type} [F64 F]

inductive SerializableValue (F : Type) [F64 F] where
  | string (b : Bytes)
  | list (l : List Bytes)
  | hash (m : List (Bytes × Bytes))
  | set (s : List Bytes)
  | sortedSet (z : List (Bytes × F))

def Value.toSerializable (env : Env) : Value F → SerializableValue F
  | .string b => .string b
  | .list l => .list l
  | .hash m => .hash ((env.iter m.keys).filterMap fun f => (m.lookup f).map fun v => (f, v))
  | .set s => .set (env.iter s)
  | .sortedSet z => .sortedSet (z.membersAscending.filterMap fun m => (z.score m).map fun s => (m, s))

def SerializableValue.toValue : SerializableValue F → Value F
  | .string b => .string b
  | .list l => .list l
  | .hash m => .hash (m.foldl (fun acc p => acc.insert p.1 p.2) ∅)
  | .set s => .set s.toFinset
  | .sortedSet z => .sortedSet (z.foldl (fun acc p => acc.insert p.1 p.2) SortedSet.new)

section

open BinCodec

def scoreCodec : BinCodec F := (nat 8).iso F64.ofBits F64.toBits F64.ofBits_toBits

def fieldsCodec : BinCodec (List (Bytes × Bytes)) := .list (.pair .bytes .bytes)

def scoresCodec : BinCodec (List (Bytes × F)) := .list (.pair .bytes scoreCodec)

def encodeValue : SerializableValue F → Bytes
  | .string b => leBytes 4 0 ++ bytes.encode b
  | .list l => leBytes 4 1 ++ (list .bytes).encode l
  | .hash m => leBytes 4 2 ++ fieldsCodec.encode m
  | .set s => leBytes 4 3 ++ (list .bytes).encode s
  | .sortedSet z => leBytes 4 4 ++ scoresCodec.encode z

def decodeValue (b : Bytes) : Option (SerializableValue F × Bytes) := do
  let (tag, b) ← readLe 4 b
  match tag with
  | 0 => (bytes.decode b).map fun p => (.string p.1, p.2)
  | 1 => ((list .bytes).decode b).map fun p => (.list p.1, p.2)
  | 2 => (fieldsCodec.decode b).map fun p => (.hash p.1, p.2)
  | 3 => ((list .bytes).decode b).map fun p => (.set p.1, p.2)
  | 4 => (scoresCodec.decode b).map fun p => (.sortedSet p.1, p.2)
  | _ => none

def ValidValue : SerializableValue F → Prop
  | .string b => bytes.valid b
  | .list l => (list .bytes).valid l
  | .hash m => fieldsCodec.valid m
  | .set s => (list .bytes).valid s
  | .sortedSet z => (scoresCodec (F := F)).valid z

def valueCodec : BinCodec (SerializableValue F) where
  encode := encodeValue
  decode := decodeValue
  valid := ValidValue
  decode_encode v rest h := by
    cases v with
    | string b =>
      simp [encodeValue, decodeValue, List.append_assoc, readLe_append 4 0 _ (by decide),
        bytes.decode_encode b rest h]
    | list l =>
      simp [encodeValue, decodeValue, List.append_assoc, readLe_append 4 1 _ (by decide),
        (list .bytes).decode_encode l rest h]
    | hash m =>
      simp [encodeValue, decodeValue, List.append_assoc, readLe_append 4 2 _ (by decide),
        fieldsCodec.decode_encode m rest h]
    | set s =>
      simp [encodeValue, decodeValue, List.append_assoc, readLe_append 4 3 _ (by decide),
        (list .bytes).decode_encode s rest h]
    | sortedSet z =>
      simp [encodeValue, decodeValue, List.append_assoc, readLe_append 4 4 _ (by decide),
        scoresCodec.decode_encode z rest h]

/-- One `SerializableEntry`: key, value, and the deadline in Unix milliseconds. -/
def entryCodec : BinCodec (Bytes × SerializableValue F × Option Int) :=
  .pair .bytes (.pair valueCodec (.option .int64))

end

def Shard.entries (env : Env) (s : Shard F) : List (Bytes × Value F × Option Nat) :=
  (env.iter (s.keys env.clock.mono)).filterMap fun k =>
    (s.map.lookup k).map fun e => (k, e.value, e.expiresAt)

def Store.snapshotEntries (env : Env) (st : Store F) : List (Bytes × Value F × Option Nat) :=
  (List.finRange shardCount).flatMap fun i => (st.shards i).entries env

def serializeEntry (env : Env) (e : Bytes × Value F × Option Nat) :
    Bytes × SerializableValue F × Option Int :=
  (e.1, e.2.1.toSerializable env, e.2.2.map (unixMsFromInstant env.clock))

def serializeEntries (env : Env) (offset : Nat) (entries : List (Bytes × Value F × Option Nat)) :
    Bytes :=
  leBytes 8 offset ++ (list entryCodec).encode (entries.map (serializeEntry env))

/-- `snapshot::serialize`: the stream position, then the live entries. -/
def serialize (env : Env) (st : Store F) (offset : Nat) : Bytes :=
  leBytes 8 offset ++ (list entryCodec).encode ((st.snapshotEntries env).map (serializeEntry env))

inductive SnapshotError where
  | tooShort
  | decode
  deriving DecidableEq, Repr

/-- An entry read back: dropped when its deadline has passed on the wall clock. -/
def loadEntry (c : Clock) (e : Bytes × SerializableValue F × Option Int) :
    Option (Bytes × Value F × Option Nat) :=
  match e.2.2 with
  | none => some (e.1, e.2.1.toValue, none)
  | some ms =>
    if ms ≤ c.wall then none else some (e.1, e.2.1.toValue, some (instantFromUnixMs c ms))

/-- `snapshot::deserialize`: the header's position and the store it replaces `st` with. -/
def deserialize (c : Clock) (st : Store F) (b : Bytes) : Except SnapshotError (Nat × Store F) :=
  if b.length < 8 then .error .tooShort
  else match (list (entryCodec (F := F))).decode (b.drop 8) with
    | none => .error .decode
    | some (entries, _) =>
      .ok (ofLeBytes (b.take 8), st.loadSnapshotEntries c.mono (entries.filterMap (loadEntry c)))

end RocketMem
