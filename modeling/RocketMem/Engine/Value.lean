import Mathlib.Data.Finset.Sort
import Mathlib.Data.Prod.Lex
import Mathlib.Algebra.BigOperators.Group.Finset.Basic
import RocketMem.Framework.Decimal
import RocketMem.Framework.HashMap

namespace RocketMem

/-- What the server uses of `f64`, up to the equality of `OrderedFloat`: its total order,
addition, the text and bit conversions. `integral` is `score as i64` for a finite whole score. -/
class F64 (F : Type) extends LinearOrder F where
  ofNat : Nat → F
  add : F → F → F
  isFinite : F → Bool
  integral : F → Option Int
  parse : Bytes → Option F
  display : F → Bytes
  toBits : F → Nat
  ofBits : Nat → F
  toBits_lt : ∀ x, toBits x < 256 ^ 8
  ofBits_toBits : ∀ x, ofBits (toBits x) = x

/-- Whole scores below 2^64, the smallest type that can stand for `f64` when a run is computed. -/
abbrev Score := Fin (2 ^ 64)

instance : F64 Score where
  ofNat := Fin.ofNat _
  add := (· + ·)
  isFinite _ := true
  integral x := some x.val
  parse b := (parseU64 b).map (Fin.ofNat _)
  display x := showNat x.val
  toBits x := x.val
  ofBits := Fin.ofNat _
  toBits_lt x := x.isLt
  ofBits_toBits x := Fin.ofNat_val_eq_self x

/-- The two indexes of a sorted set as plain data, with nothing that ties one to the other. -/
structure ScoreIndexes (S : Type) [LinearOrder S] where
  scores : HashMap Bytes S
  byScore : Finset (S ×ₗ Bytes)

namespace ScoreIndexes

variable {S : Type} [LinearOrder S]

def unscored (z : ScoreIndexes S) (member : Bytes) : Finset (S ×ₗ Bytes) :=
  match z.scores.lookup member with
  | some old => z.byScore.erase (toLex (old, member))
  | none => z.byScore

def Agrees (z : ScoreIndexes S) : Prop :=
  ∀ s m, toLex (s, m) ∈ z.byScore ↔ z.scores.lookup m = some s

theorem Agrees.mem_unscored {z : ScoreIndexes S} (h : z.Agrees) (member : Bytes) (s : S)
    (m : Bytes) : toLex (s, m) ∈ z.unscored member ↔ m ≠ member ∧ z.scores.lookup m = some s := by
  unfold unscored
  split
  · next old hold =>
    rw [Finset.mem_erase, h, ne_eq, toLex_inj, Prod.mk.injEq]
    refine ⟨fun h => ⟨?_, h.2⟩, fun h => ⟨fun he => h.1 he.2, h.2⟩⟩
    rintro rfl
    rw [hold, Option.some.injEq] at h
    exact h.1 ⟨h.2.symm, rfl⟩
  · next hnone =>
    rw [h]
    refine ⟨fun h => ⟨?_, h⟩, fun h => h.2⟩
    rintro rfl
    rw [hnone] at h
    cases h

end ScoreIndexes

variable {F : Type} [F64 F]

/-- A sorted set keeps two indexes of the same pairs. -/
structure SortedSet (F : Type) [F64 F] where
  scores : HashMap Bytes F
  byScore : Finset (F ×ₗ Bytes)
  agree : ∀ s m, toLex (s, m) ∈ byScore ↔ scores.lookup m = some s
  deriving DecidableEq

namespace SortedSet

def new : SortedSet F where
  scores := ∅
  byScore := ∅
  agree s m := by simp

def indexes (z : SortedSet F) : ScoreIndexes F := ⟨z.scores, z.byScore⟩

theorem indexes_agrees (z : SortedSet F) : z.indexes.Agrees := z.agree

def unscored (z : SortedSet F) (member : Bytes) : Finset (F ×ₗ Bytes) := z.indexes.unscored member

theorem mem_unscored (z : SortedSet F) (member : Bytes) (s : F) (m : Bytes) :
    toLex (s, m) ∈ z.unscored member ↔ m ≠ member ∧ z.scores.lookup m = some s :=
  z.indexes_agrees.mem_unscored member s m

def insert (z : SortedSet F) (member : Bytes) (score : F) : SortedSet F where
  scores := z.scores.insert member score
  byScore := Insert.insert (toLex (score, member)) (z.unscored member)
  agree s m := by
    rw [Finset.mem_insert, mem_unscored, toLex_inj, Prod.mk.injEq]
    by_cases hm : m = member
    · subst hm
      simp [eq_comm]
    · simp [hm, Finmap.lookup_insert_of_ne z.scores hm]

def remove (z : SortedSet F) (member : Bytes) : SortedSet F × Bool where
  fst := {
    scores := z.scores.erase member
    byScore := z.unscored member
    agree := fun s m => by
      rw [mem_unscored]
      by_cases hm : m = member
      · subst hm
        simp
      · simp [hm, Finmap.lookup_erase_ne hm] }
  snd := (z.scores.lookup member).isSome

def score (z : SortedSet F) (member : Bytes) : Option F := z.scores.lookup member

def len (z : SortedSet F) : Nat := z.scores.keys.card

def isEmpty (z : SortedSet F) : Bool := z.len = 0

def membersAscending (z : SortedSet F) : List Bytes :=
  (z.byScore.sort (· ≤ ·)).map fun p => (ofLex p).2

end SortedSet

inductive Value (F : Type) [F64 F] where
  | string (b : Bytes)
  | list (l : List Bytes)
  | hash (m : HashMap Bytes Bytes)
  | set (s : Finset Bytes)
  | sortedSet (z : SortedSet F)
  deriving DecidableEq

namespace Value

def typeName : Value F → Bytes
  | string _ => txt "string"
  | list _ => txt "list"
  | hash _ => txt "hash"
  | set _ => txt "set"
  | sortedSet _ => txt "zset"

def isEmptyCollection : Value F → Bool
  | string _ => false
  | list l => l.isEmpty
  | hash m => m.keys.card = 0
  | set s => s.card = 0
  | sortedSet z => z.isEmpty

def overhead : Nat := 48

def approxSize (v : Value F) : Nat :=
  overhead + match v with
    | string b => b.length
    | list l => (l.map fun b => b.length + 8).sum
    | hash m => (m.entries.map fun e => e.1.length + e.2.length + 16).sum
    | set s => ∑ b ∈ s, (b.length + 8)
    | sortedSet z => ∑ p ∈ z.byScore, ((ofLex p).2.length + 24)

end Value

inductive EngineError where
  | wrongType
  | notAnInteger
  | noSuchKey
  | incrementOverflow
  | indexOutOfRange
  deriving DecidableEq, Repr

def EngineError.text : EngineError → Bytes
  | wrongType => txt "WRONGTYPE Operation against a key holding the wrong kind of value"
  | notAnInteger => txt "value is not an integer or out of range"
  | noSuchKey => txt "no such key"
  | incrementOverflow => txt "increment or decrement would overflow"
  | indexOutOfRange => txt "index out of range"

end RocketMem
