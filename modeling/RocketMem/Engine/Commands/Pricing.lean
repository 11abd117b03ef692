import RocketMem.Engine.Accounting
import RocketMem.Engine.Commands.Collections

namespace RocketMem

open List

variable {F : Type} [F64 F] {R : Type}

/-- The delta that an edit reports is what it adds to the size. -/
def Variant.Prices {T : Type} (size : T → Nat) (f : T → EngineResult R × T × Int) : Prop :=
  ∀ x, (size (f x).2.1 : Int) = size x + (f x).2.2

def Variant.Weighs {T : Type} (w : Variant F T) (size : T → Nat) : Prop :=
  ∀ x, (w.put x).approxSize = Value.overhead + size x

theorem Variant.Prices.edit {T : Type} {w : Variant F T} {size : T → Nat}
    {f : T → EngineResult R × T × Int} (hf : Variant.Prices size f) (hw : w.Weighs size) :
    Priced fun v => (w.edit f v).2 := by
  intro v
  cases hv : w.get v with
  | none =>
    simp only [Variant.edit, hv]
    omega
  | some x =>
    have hold := hw x
    have hnew := hw (f x).2.1
    have hprice := hf x
    rw [w.put_of_get v x hv] at hold
    simp only [Variant.edit, hv]
    omega

theorem Variant.string_weighs : (string : Variant F Bytes).Weighs List.length := fun _ => rfl

theorem append_priced (suffix : Bytes) :
    Variant.Prices List.length fun b : Bytes =>
      ((.ok (b.length + suffix.length), b ++ suffix, suffix.length) :
        EngineResult Nat × Bytes × Int) := by
  intro b
  simp

theorem incrBy_priced (delta : Int) :
    Variant.Prices List.length fun b : Bytes =>
      (match parseI64 b with
        | none => (.error .notAnInteger, b, 0)
        | some current =>
          match checkedAdd current delta with
          | none => (.error .incrementOverflow, b, 0)
          | some next => (.ok next, showInt next, ((showInt next).length : Int) - b.length) :
        EngineResult Int × Bytes × Int) := by
  intro b
  dsimp only
  split
  · simp
  · split
    · simp
    · dsimp only
      omega

theorem spliceValue_priced (offset : Nat) (value : Bytes) :
    Priced (spliceValue offset value : Value F → Value F × Int) := by
  intro v
  cases v with
  | string b =>
    rw [spliceValue]
    split
    · have hsize (t : Bytes) : (Value.string t : Value F).approxSize = Value.overhead + t.length :=
        rfl
      have hold := hsize b
      have hnew := hsize (splice b offset value)
      dsimp only
      omega
    · exact (add_zero _).symm
  | list l | hash m | set s | sortedSet z => exact (add_zero _).symm

def fieldsSize (m : HashMap Bytes Bytes) : Nat :=
  HashMap.total (fun field val => field.length + val.length + 16) m

theorem Variant.hash_weighs : (hash : Variant F _).Weighs fieldsSize := fun _ => rfl

theorem fieldsSize_insert (m : HashMap Bytes Bytes) (field val : Bytes) :
    (fieldsSize (m.insert field val) : Int) =
      fieldsSize m + insertDelta field val (m.lookup field) := by
  have hold := HashMap.total_erase (fun field val => field.length + val.length + 16) m field
  have hnew := HashMap.total_insert (fun field val => field.length + val.length + 16) m field val
  unfold fieldsSize
  cases h : m.lookup field with
  | none =>
    rw [h] at hold
    simp only [insertDelta, Option.elim_none] at hold ⊢
    omega
  | some old =>
    rw [h] at hold
    simp only [insertDelta, Option.elim_some] at hold ⊢
    omega

theorem hset_priced (field val : Bytes) :
    Variant.Prices fieldsSize fun m =>
      ((.ok (m.lookup field).isNone, m.insert field val,
        insertDelta field val (m.lookup field)) : EngineResult Bool × _ × Int) :=
  fun m => fieldsSize_insert m field val

theorem hsetnx_priced (field val : Bytes) :
    Variant.Prices fieldsSize fun m =>
      (if (m.lookup field).isSome then (.ok false, m, 0)
        else (.ok true, m.insert field val, field.length + val.length + 16) :
        EngineResult Bool × _ × Int) := by
  intro m
  have hinsert := fieldsSize_insert m field val
  dsimp only
  cases h : m.lookup field with
  | none =>
    rw [h] at hinsert
    exact hinsert
  | some old => exact (add_zero _).symm

theorem hincrby_priced (field : Bytes) (delta : Int) :
    Variant.Prices fieldsSize fun m =>
      (match (m.lookup field).elim (some 0) parseI64 with
        | none => (.error .notAnInteger, m, 0)
        | some current =>
          match checkedAdd current delta with
          | none => (.error .incrementOverflow, m, 0)
          | some next =>
            (.ok next, m.insert field (showInt next),
              insertDelta field (showInt next) (m.lookup field)) : EngineResult Int × _ × Int) := by
  intro m
  dsimp only
  split
  · exact (add_zero _).symm
  · split
    · exact (add_zero _).symm
    · exact fieldsSize_insert m field _

theorem removeFields_priced (fields : List Bytes) :
    Variant.Prices fieldsSize fun m =>
      ((.ok (removeFields fields m).1, (removeFields fields m).2) : EngineResult Int × _ × Int) := by
  induction fields with
  | nil => exact fun m => (add_zero _).symm
  | cons field fields ih =>
    intro m
    dsimp only
    rw [removeFields]
    cases h : m.lookup field with
    | none => exact ih m
    | some old =>
      have hrest := ih (m.erase field)
      have herase := HashMap.total_erase (fun field val => field.length + val.length + 16) m field
      rw [h, Option.elim_some] at herase
      unfold fieldsSize at hrest ⊢
      dsimp only at hrest ⊢
      omega

def listSize (l : List Bytes) : Nat := (l.map fun b => b.length + 8).sum

theorem Variant.list_weighs : (list : Variant F _).Weighs listSize := fun _ => rfl

theorem listSize_append (l l' : List Bytes) : listSize (l ++ l') = listSize l + listSize l' := by
  unfold listSize
  rw [map_append, sum_append]

theorem listSize_cons (b : Bytes) (l : List Bytes) :
    listSize (b :: l) = b.length + 8 + listSize l := rfl

theorem listSize_perm {l l' : List Bytes} (h : l.Perm l') : listSize l = listSize l' :=
  (h.map _).sum_eq

theorem rpush_priced (values : List Bytes) :
    Variant.Prices listSize fun l =>
      ((.ok (l.length + values.length), l ++ values, elementsSize values) :
        EngineResult Nat × _ × Int) := by
  intro l
  have hsize := listSize_append l values
  have hcast : elementsSize values = listSize values := rfl
  dsimp only
  omega

theorem lpush_priced (values : List Bytes) :
    Variant.Prices listSize fun l =>
      ((.ok (l.length + values.length), values.reverse ++ l, elementsSize values) :
        EngineResult Nat × _ × Int) := by
  intro l
  have hsize : listSize (values.reverse ++ l) = listSize l + listSize values := by
    rw [listSize_append, listSize_perm values.reverse_perm, Nat.add_comm]
  have hcast : elementsSize values = listSize values := rfl
  dsimp only
  omega

theorem popEnd_priced (stop : ListEnd) :
    Variant.Prices listSize fun l =>
      ((.ok (popEnd stop l).1, (popEnd stop l).2, poppedDelta (popEnd stop l).1) :
        EngineResult (Option Bytes) × _ × Int) := by
  intro l
  cases stop with
  | left =>
    cases l with
    | nil => rfl
    | cons b l =>
      have hsize := listSize_cons b l
      simp only [popEnd, head?_cons, tail_cons, poppedDelta]
      omega
  | right =>
    rcases l.eq_nil_or_concat with rfl | ⟨l, b, rfl⟩
    · rfl
    · have hsize := listSize_append l [b]
      have hlast := listSize_cons b []
      have hnil : listSize [] = 0 := rfl
      simp only [popEnd, concat_eq_append, getLast?_concat, dropLast_concat, poppedDelta]
      omega

theorem popFrom_priced (stop : ListEnd) : Priced fun v : Value F => (popFrom stop v).2 :=
  (popEnd_priced stop).edit Variant.list_weighs

theorem position_lt {len : Nat} {index : Int} {i : Nat} (h : position len index = some i) :
    i < len := by
  simp only [position, Option.ite_none_left_eq_some, Option.some.injEq] at h
  omega

theorem lset_priced (index : Int) (val : Bytes) :
    Variant.Prices listSize fun l =>
      (match position l.length index with
        | none => (.error .indexOutOfRange, l, 0)
        | some i => (.ok (), l.set i val, (val.length : Int) - (l.getD i []).length) :
        EngineResult Unit × _ × Int) := by
  intro l
  dsimp only
  cases h : position l.length index with
  | none => exact (add_zero _).symm
  | some i =>
    have hi := position_lt h
    have hold : l = l.take i ++ l.getD i [] :: l.drop (i + 1) := by
      rw [getD_eq_getElem?_getD, getElem?_eq_getElem hi, Option.getD_some,
        cons_getElem_drop_succ, take_append_drop]
    have hnew : l.set i val = l.take i ++ val :: l.drop (i + 1) := by
      rw [set_eq_take_append_cons_drop, if_pos hi]
    have hsize := congrArg listSize hold
    have hsize' := congrArg listSize hnew
    rw [listSize_append, listSize_cons] at hsize hsize'
    dsimp only
    omega

theorem ltrim_priced (start stop : Int) :
    Variant.Prices listSize fun l =>
      ((.ok (), (l.take (normalizeRange l.length start stop).2).drop
          (normalizeRange l.length start stop).1,
        -(elementsSize (l.drop (normalizeRange l.length start stop).2) +
          elementsSize ((l.take (normalizeRange l.length start stop).2).take
            (normalizeRange l.length start stop).1))) : EngineResult Unit × _ × Int) := by
  intro l
  dsimp only
  generalize normalizeRange l.length start stop = r
  have houter := listSize_append (l.take r.2) (l.drop r.2)
  have hinner := listSize_append ((l.take r.2).take r.1) ((l.take r.2).drop r.1)
  rw [take_append_drop] at houter hinner
  have hcast (l : List Bytes) : elementsSize l = listSize l := rfl
  rw [hcast, hcast]
  omega

theorem removeFirst_size (val : Bytes) (n : Nat) (l : List Bytes) :
    listSize l = listSize (removeFirst val n l).1 + (removeFirst val n l).2 * (val.length + 8) := by
  induction l generalizing n with
  | nil => simp [removeFirst]
  | cons b l ih =>
    cases n with
    | zero => simp [removeFirst]
    | succ n =>
      rw [removeFirst]
      split
      · next hb =>
        subst hb
        rw [listSize_cons, ih n, Nat.add_mul]
        dsimp only
        omega
      · rw [listSize_cons, ih (n + 1)]
        dsimp only
        rw [listSize_cons]
        omega

theorem lrem_priced (count : Int) (val : Bytes) :
    Variant.Prices listSize fun l =>
      ((.ok (removeCount val count l).2, (removeCount val count l).1,
        -((removeCount val count l).2 * (val.length + 8) : Nat)) : EngineResult Nat × _ × Int) := by
  intro l
  have hsize : listSize l = listSize (removeCount val count l).1 +
      (removeCount val count l).2 * (val.length + 8) := by
    unfold removeCount
    split
    · exact removeFirst_size val _ l
    · dsimp only
      rw [listSize_perm (reverse_perm _), ← removeFirst_size]
      exact (listSize_perm l.reverse_perm).symm
  dsimp only
  omega

theorem pushEnd_priced (stop : ListEnd) (val : Bytes) :
    Variant.Prices listSize fun l =>
      ((.ok (), pushEnd stop val l, val.length + 8) : EngineResult Unit × _ × Int) := by
  intro l
  have hsize : listSize (pushEnd stop val l) = listSize l + (val.length + 8) := by
    cases stop with
    | left =>
      rw [pushEnd, listSize_cons]
      omega
    | right =>
      rw [pushEnd, listSize_append]
      rfl
  dsimp only
  omega

theorem linsert_priced (before : Bool) (pivot val : Bytes) :
    Variant.Prices listSize fun l =>
      (match l.findIdx? (· = pivot) with
        | none => (.ok (-1), l, 0)
        | some i =>
          (.ok (l.length + 1), l.insertIdx (if before then i else i + 1) val, val.length + 8) :
        EngineResult Int × _ × Int) := by
  intro l
  dsimp only
  cases h : l.findIdx? (· = pivot) with
  | none => exact (add_zero _).symm
  | some i =>
    have hi : i < l.length := (findIdx?_eq_some_iff_getElem.mp h).1
    have hpos : (if before then i else i + 1) ≤ l.length := by
      split <;> omega
    have hsize := listSize_perm (perm_insertIdx val l hpos)
    rw [listSize_cons] at hsize
    dsimp only
    omega

def membersSize (s : Finset Bytes) : Nat := ∑ b ∈ s, (b.length + 8)

theorem Variant.set_weighs : (set : Variant F _).Weighs membersSize := fun _ => rfl

theorem membersSize_insert {m : Bytes} {s : Finset Bytes} (h : m ∉ s) :
    membersSize (insert m s) = m.length + 8 + membersSize s :=
  Finset.sum_insert h

theorem membersSize_erase {m : Bytes} {s : Finset Bytes} (h : m ∈ s) :
    m.length + 8 + membersSize (s.erase m) = membersSize s :=
  Finset.add_sum_erase s (fun b => b.length + 8) h

theorem addMembers_priced (members : List Bytes) :
    Variant.Prices membersSize fun s =>
      ((.ok (addMembers members s).1, (addMembers members s).2) : EngineResult Int × _ × Int) := by
  induction members with
  | nil => exact fun s => (add_zero _).symm
  | cons m members ih =>
    intro s
    dsimp only
    rw [addMembers]
    split
    · exact ih s
    · next hm =>
      have hrest := ih (insert m s)
      have hinsert := membersSize_insert hm
      dsimp only at hrest ⊢
      omega

theorem removeMembers_priced (members : List Bytes) :
    Variant.Prices membersSize fun s =>
      ((.ok (removeMembers members s).1, (removeMembers members s).2) :
        EngineResult Int × _ × Int) := by
  induction members with
  | nil => exact fun s => (add_zero _).symm
  | cons m members ih =>
    intro s
    dsimp only
    rw [removeMembers]
    split
    · next hm =>
      have hrest := ih (s.erase m)
      have herase := membersSize_erase hm
      dsimp only at hrest ⊢
      omega
    · exact ih s

theorem spop_priced (env : Env) :
    Variant.Prices membersSize fun s =>
      (match env.choose s with
        | none => (.ok none, s, 0)
        | some m => (.ok (some m), s.erase m, -(m.length + 8)) :
        EngineResult (Option Bytes) × _ × Int) := by
  intro s
  dsimp only
  cases h : env.choose s with
  | none => exact (add_zero _).symm
  | some m =>
    have herase := membersSize_erase (env.choose_mem s m h)
    dsimp only
    omega

def scoresSize (z : SortedSet F) : Nat := ∑ p ∈ z.byScore, ((ofLex p).2.length + 24)

theorem Variant.sortedSet_weighs : (sortedSet : Variant F _).Weighs scoresSize := fun _ => rfl

theorem scoresSize_unscored (z : SortedSet F) (member : Bytes) :
    scoresSize z = (if (z.score member).isNone then 0 else member.length + 24) +
      ∑ p ∈ z.unscored member, ((ofLex p).2.length + 24) := by
  unfold SortedSet.unscored SortedSet.indexes ScoreIndexes.unscored SortedSet.score scoresSize
  dsimp only
  cases h : z.scores.lookup member with
  | none => exact (Nat.zero_add _).symm
  | some old =>
    have hmem : toLex (old, member) ∈ z.byScore := (z.agree old member).mpr h
    exact (Finset.add_sum_erase z.byScore (fun p => (ofLex p).2.length + 24) hmem).symm

theorem scoresSize_insert (z : SortedSet F) (member : Bytes) (score : F) :
    (scoresSize (z.insert member score) : Int) =
      scoresSize z + memberDelta member (z.score member).isNone := by
  have hold := scoresSize_unscored z member
  have hfresh : toLex (score, member) ∉ z.unscored member := by
    intro hmem
    exact ((z.mem_unscored member score member).mp hmem).1 rfl
  have hnew : scoresSize (z.insert member score) = member.length + 24 +
      ∑ p ∈ z.unscored member, ((ofLex p).2.length + 24) := Finset.sum_insert hfresh
  unfold memberDelta
  by_cases h : (z.score member).isNone
  · rw [if_pos h] at hold ⊢
    omega
  · rw [if_neg h] at hold ⊢
    omega

theorem zadd_priced (score : F) (member : Bytes) :
    Variant.Prices scoresSize fun z : SortedSet F =>
      ((.ok (z.score member).isNone, z.insert member score,
        memberDelta member (z.score member).isNone) : EngineResult Bool × _ × Int) :=
  fun z => scoresSize_insert z member score

theorem zincrby_priced (delta : F) (member : Bytes) :
    Variant.Prices scoresSize fun z : SortedSet F =>
      ((.ok (F64.add ((z.score member).getD (F64.ofNat 0)) delta),
        z.insert member (F64.add ((z.score member).getD (F64.ofNat 0)) delta),
        memberDelta member (z.score member).isNone) : EngineResult F × _ × Int) :=
  fun z => scoresSize_insert z member _

theorem removeScored_priced (members : List Bytes) :
    Variant.Prices scoresSize fun z : SortedSet F =>
      ((.ok (removeScored members z).1, (removeScored members z).2) :
        EngineResult Int × _ × Int) := by
  induction members with
  | nil => exact fun z => (add_zero _).symm
  | cons m members ih =>
    intro z
    dsimp only
    rw [removeScored]
    split
    · next hm =>
      have hrest := ih (z.remove m).1
      have hold := scoresSize_unscored z m
      have hsome : ¬ (z.score m).isNone := by
        rw [Option.isNone_iff_eq_none, ← ne_eq, ← Option.isSome_iff_ne_none]
        exact hm
      have hleft : scoresSize (z.remove m).1 = ∑ p ∈ z.unscored m, ((ofLex p).2.length + 24) := rfl
      rw [if_neg hsome] at hold
      dsimp only at hrest ⊢
      omega
    · exact ih z

end RocketMem
