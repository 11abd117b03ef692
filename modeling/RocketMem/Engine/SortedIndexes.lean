import RocketMem.Engine.Value

namespace RocketMem

inductive ScoreCall (S : Type) where
  | insert (member : Bytes) (score : S)
  | remove (member : Bytes)

namespace ScoreIndexes

variable {S : Type} [LinearOrder S]

def new : ScoreIndexes S := ⟨∅, ∅⟩

def insert (z : ScoreIndexes S) (member : Bytes) (score : S) : ScoreIndexes S :=
  ⟨z.scores.insert member score, Insert.insert (toLex (score, member)) (z.unscored member)⟩

def remove (z : ScoreIndexes S) (member : Bytes) : ScoreIndexes S × Bool :=
  match z.scores.lookup member with
  | some score => (⟨z.scores.erase member, z.byScore.erase (toLex (score, member))⟩, true)
  | none => (z, false)

def len (z : ScoreIndexes S) : Nat := z.scores.keys.card

def membersAscending (z : ScoreIndexes S) : List Bytes :=
  (z.byScore.sort (· ≤ ·)).map fun p => (ofLex p).2

def call (z : ScoreIndexes S) : ScoreCall S → ScoreIndexes S
  | .insert member score => z.insert member score
  | .remove member => (z.remove member).1

def run (z : ScoreIndexes S) (calls : List (ScoreCall S)) : ScoreIndexes S := calls.foldl call z

section

variable {z : ScoreIndexes S}

theorem remove_fst (z : ScoreIndexes S) (member : Bytes) :
    (z.remove member).1 = ⟨z.scores.erase member, z.unscored member⟩ := by
  unfold remove unscored
  cases h : z.scores.lookup member with
  | some score => rfl
  | none => rw [HashMap.erase_of_lookup_eq_none h]

theorem agrees_new : (new : ScoreIndexes S).Agrees := by
  intro s m
  simp [new]

theorem Agrees.insert (h : z.Agrees) (member : Bytes) (score : S) :
    (z.insert member score).Agrees := by
  intro s m
  rw [ScoreIndexes.insert, Finset.mem_insert, h.mem_unscored, toLex_inj, Prod.mk.injEq]
  by_cases hm : m = member
  · subst hm
    simp [eq_comm]
  · simp [hm, Finmap.lookup_insert_of_ne z.scores hm]

theorem Agrees.remove (h : z.Agrees) (member : Bytes) : (z.remove member).1.Agrees := by
  intro s m
  rw [remove_fst, h.mem_unscored]
  by_cases hm : m = member
  · subst hm
    simp
  · simp [hm, Finmap.lookup_erase_ne hm]

theorem Agrees.call (h : z.Agrees) (c : ScoreCall S) : (z.call c).Agrees := by
  cases c with
  | insert member score => exact h.insert member score
  | remove member => exact h.remove member

theorem Agrees.run (h : z.Agrees) (calls : List (ScoreCall S)) : (z.run calls).Agrees := by
  induction calls generalizing z with
  | nil => exact h
  | cons c calls ih => exact ih (h.call c)

end

variable {z : ScoreIndexes S} (h : z.Agrees)

include h

theorem Agrees.mem_membersAscending (m : Bytes) :
    m ∈ z.membersAscending ↔ ∃ s, z.scores.lookup m = some s := by
  rw [membersAscending, List.mem_map]
  constructor
  · rintro ⟨p, hp, rfl⟩
    exact ⟨(ofLex p).1, (h _ _).mp ((Finset.mem_sort _).mp hp)⟩
  · rintro ⟨s, hs⟩
    exact ⟨toLex (s, m), (Finset.mem_sort _).mpr ((h s m).mpr hs), rfl⟩

theorem Agrees.membersAscending_sorted :
    z.membersAscending.Pairwise fun a b =>
      ∃ s t, z.scores.lookup a = some s ∧ z.scores.lookup b = some t ∧
        toLex (s, a) < toLex (t, b) := by
  have hsorted := (Finset.sortedLT_sort z.byScore).pairwise
  refine List.pairwise_map.mpr (hsorted.imp_of_mem ?_)
  intro p q hp hq hlt
  exact ⟨(ofLex p).1, (ofLex q).1, (h _ _).mp ((Finset.mem_sort _).mp hp),
    (h _ _).mp ((Finset.mem_sort _).mp hq), hlt⟩

theorem Agrees.membersAscending_nodup : z.membersAscending.Nodup := by
  refine h.membersAscending_sorted.imp ?_
  rintro a _ ⟨s, t, hs, ht, hlt⟩ rfl
  rw [hs, Option.some.injEq] at ht
  subst ht
  exact lt_irrefl _ hlt

theorem Agrees.length_membersAscending : z.membersAscending.length = z.len := by
  have hset : z.membersAscending.toFinset = z.scores.keys := by
    ext m
    rw [List.mem_toFinset, h.mem_membersAscending, Finmap.mem_keys, Finmap.mem_iff]
  rw [len, ← hset, List.toFinset_card_of_nodup h.membersAscending_nodup]

end ScoreIndexes

namespace SortedSet

variable {F : Type} [F64 F] (z : SortedSet F) (member : Bytes)

/-- The model's sorted sets are indexes that agree, and their methods are those of the indexes. -/
theorem indexes_insert (score : F) :
    (z.insert member score).indexes = z.indexes.insert member score := rfl

theorem indexes_remove :
    (z.remove member).1.indexes = (z.indexes.remove member).1 ∧
      (z.remove member).2 = (z.indexes.remove member).2 := by
  refine ⟨(z.indexes.remove_fst member).symm, ?_⟩
  unfold ScoreIndexes.remove
  change (z.scores.lookup member).isSome = _
  cases h : z.scores.lookup member with
  | some score => simp only [indexes, h, Option.isSome_some]
  | none => simp only [indexes, h, Option.isSome_none]

theorem length_membersAscending : z.membersAscending.length = z.len :=
  z.indexes_agrees.length_membersAscending

end SortedSet

end RocketMem
