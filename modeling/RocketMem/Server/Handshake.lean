import RocketMem.Engine.SnapshotProof
import RocketMem.Protocol.Codec

namespace RocketMem

variable {F : Type} [F64 F]

/-- What the leader puts on the wire after it accepts PSYNC: the snapshot's length, the snapshot,
and then the frames it replicates. -/
def serveReplica (env : Env) (st : Store F) (masterReplOffset : Nat) (frames : List Frame) : Bytes :=
  leBytes 8 (serialize env st masterReplOffset).length ++
    (serialize env st masterReplOffset ++ frames.flatMap (encode .resp2))

inductive Resync where
  | waiting
  | rejected (line : Bytes)
  | panic
  | synced (blob : Bytes) (rest : Bytes)
  deriving DecidableEq, Repr

def readRejection : Bytes → Option Bytes
  | [] => none
  | b :: rest =>
    if b = 10 then some []
    else (readRejection rest).map fun line => if b = 13 then line else b :: line

/-- The reading half of `sync_once` up to the point where it decodes frames: a first byte `-` is
taken for an error line, anything else for the first byte of the length. -/
def syncOnce : Bytes → Resync
  | [] => .waiting
  | first :: rest =>
    if first = 45 then
      match readRejection rest with
      | none => .waiting
      | some line => .rejected line
    else
      match BinCodec.takeBytes 7 rest with
      | none => .waiting
      | some (more, rest) =>
        let len := ofLeBytes (first :: more)
        if i64Max < (len : Int) then .panic
        else match BinCodec.takeBytes len rest with
          | none => .waiting
          | some (blob, rest) => .synced blob rest

theorem syncOnce_prefixed (blob rest : Bytes) (hlen : (blob.length : Int) ≤ i64Max)
    (h : blob.length % 256 ≠ 45) :
    syncOnce (leBytes 8 blob.length ++ (blob ++ rest)) = .synced blob rest := by
  have hhead : UInt8.ofNat (blob.length % 256) ≠ 45 := by
    intro heq
    have hnat := congrArg UInt8.toNat heq
    rw [UInt8.toNat_ofNat'] at hnat
    apply h
    simpa using hnat
  have hvalue : ofLeBytes (leBytes 8 blob.length) = blob.length := by
    apply ofLeBytes_leBytes
    unfold i64Max at hlen
    omega
  have htake : BinCodec.takeBytes 7 (leBytes 7 (blob.length / 256) ++ (blob ++ rest)) =
      some (leBytes 7 (blob.length / 256), blob ++ rest) := by
    have := BinCodec.takeBytes_append (leBytes 7 (blob.length / 256)) (blob ++ rest)
    rwa [length_leBytes] at this
  rw [leBytes_succ_head] at hvalue ⊢
  simp only [List.cons_append, syncOnce, if_neg hhead, htake, hvalue, if_neg (not_lt.mpr hlen),
    BinCodec.takeBytes_append]

theorem syncOnce_dash (blob rest : Bytes) (h : blob.length % 256 = 45) (b r : Bytes) :
    syncOnce (leBytes 8 blob.length ++ (blob ++ rest)) ≠ .synced b r := by
  rw [leBytes_succ_head, h]
  simp only [List.cons_append, syncOnce]
  rw [if_pos (show UInt8.ofNat 45 = 45 from rfl)]
  split <;> exact fun heq => by cases heq

/-- The handshake is unambiguous on one leader state: the follower recovers the snapshot and
stands at the first replicated frame, and does not take the snapshot for a rejection. -/
def ResyncExact (env : Env) (st : Store F) (masterReplOffset : Nat) (frames : List Frame) : Prop :=
  syncOnce (serveReplica env st masterReplOffset frames) =
      .synced (serialize env st masterReplOffset) (frames.flatMap (encode .resp2)) ∧
    ∀ line, syncOnce (serveReplica env st masterReplOffset frames) ≠ .rejected line

theorem resyncExact_iff (env : Env) (st : Store F) (masterReplOffset : Nat) (frames : List Frame)
    (hlen : ((serialize env st masterReplOffset).length : Int) ≤ i64Max) :
    ResyncExact env st masterReplOffset frames ↔
      (serialize env st masterReplOffset).length % 256 ≠ 45 := by
  constructor
  · intro hexact hdash
    exact syncOnce_dash _ _ hdash _ _ hexact.1
  · intro h
    have hsync := syncOnce_prefixed _ (frames.flatMap (encode .resp2)) hlen h
    refine ⟨hsync, fun line hline => ?_⟩
    rw [serveReplica, hsync] at hline
    cases hline

/-- Every full resync is exact unless the live entries add up to a snapshot whose length has the
low byte of `-`. -/
theorem resync_exact_iff_imageSize (env : Env) (st : Store F) (masterReplOffset : Nat)
    (frames : List Frame) (hlen : (st.imageSize env.clock.mono : Int) ≤ i64Max) :
    ResyncExact env st masterReplOffset frames ↔ st.imageSize env.clock.mono % 256 ≠ 45 := by
  rw [← serialize_length env st masterReplOffset] at hlen ⊢
  exact resyncExact_iff env st masterReplOffset frames hlen

def fooHello : Store Score := Store.new.set (txt "foo") (.string (txt "hello"))

theorem fooHello_imageSize : fooHello.imageSize 0 = 45 := by decide

theorem resync_exact_foHello :
    ResyncExact Env.still
      (Store.new.set (txt "fo") (.string (txt "hello")) : Store Score) 0 [.command [txt "PING"]] :=
  (resync_exact_iff_imageSize Env.still
    (Store.new.set (txt "fo") (.string (txt "hello"))) 0 [.command [txt "PING"]]
    (by decide)).mpr (by decide)

theorem resync_not_always_exact :
    ¬ ∀ (env : Env) (st : Store Score) (masterReplOffset : Nat) (frames : List Frame),
      ((serialize env st masterReplOffset).length : Int) ≤ i64Max →
        ResyncExact env st masterReplOffset frames := by
  intro h
  have hlen : (serialize Env.still fooHello 0).length = 45 :=
    (serialize_length _ _ _).trans fooHello_imageSize
  have hle : ((serialize Env.still fooHello 0).length : Int) ≤ i64Max := by
    rw [hlen]
    decide
  have hmod := (resyncExact_iff _ _ _ _ hle).mp (h Env.still fooHello 0 [] hle)
  rw [hlen] at hmod
  exact hmod rfl

end RocketMem
