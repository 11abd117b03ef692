import RocketMem.Engine.Commands.Ranges

namespace RocketMem

open List Function

variable {F : Type} [F64 F] {env : Env}

def usizeMax : Nat := 2 ^ 64 - 1

def asUsize (i : Int) : Nat := (i % 2 ^ 64).toNat

/-- `list.retain` with the two counters of its closure: what is kept, and how many are removed. -/
def retainLoop (val : Bytes) : Nat → Nat → List Bytes → List Bytes × Nat
  | _, removed, [] => ([], removed)
  | remaining, removed, item :: rest =>
    if 0 < remaining ∧ item = val then retainLoop val (remaining - 1) (removed + 1) rest
    else
      let r := retainLoop val remaining removed rest
      (item :: r.1, r.2)

/-- The loop over `list.iter().enumerate().rev()` that collects the indexes to remove. -/
def collectLoop (val : Bytes) : Nat → List Nat → List (Bytes × Nat) → List Nat
  | _, toRemove, [] => toRemove
  | remaining, toRemove, (item, idx) :: rest =>
    if remaining = 0 then toRemove
    else if item = val then collectLoop val (remaining - 1) (toRemove ++ [idx]) rest
    else collectLoop val remaining toRemove rest

def removeIndexes (toRemove : List Nat) (l : List Bytes) : List Bytes :=
  toRemove.foldl (fun l idx => l.eraseIdx idx) l

/-- The closure of `lrem` as it is written, with the wrap of `-count` in a release build. -/
def lremList (val : Bytes) (count : Int) (l : List Bytes) : List Bytes × Nat :=
  if 0 ≤ count then retainLoop val (if count = 0 then usizeMax else asUsize count) 0 l
  else
    let toRemove := collectLoop val (asUsize (wrapI64 (-count))) [] l.zipIdx.reverse
    (removeIndexes toRemove l, toRemove.length)

section

variable (val : Bytes)

def amongFirst (n : Nat) (l : List Bytes) (p : Nat) : Bool :=
  l[p]? = some val ∧ (l.take p).count val < n

def amongLast (n : Nat) (l : List Bytes) (p : Nat) : Bool :=
  l[p]? = some val ∧ (l.drop (p + 1)).count val < n

def goes (count : Int) (l : List Bytes) (p : Nat) : Bool :=
  if count = 0 then l[p]? = some val
  else if 0 < count then amongFirst val count.toNat l p
  else amongLast val (-count).toNat l p

variable {val}

theorem amongFirst_zero (n : Nat) (b : Bytes) (l : List Bytes) :
    amongFirst val n (b :: l) 0 = decide (b = val ∧ 0 < n) := by
  simp [amongFirst]

theorem amongFirst_succ_of_eq (n : Nat) (l : List Bytes) (p : Nat) :
    amongFirst val (n + 1) (val :: l) (p + 1) = amongFirst val n l p := by
  simp [amongFirst]

theorem amongFirst_succ_of_ne {b : Bytes} (hb : b ≠ val) (n : Nat) (l : List Bytes) (p : Nat) :
    amongFirst val n (b :: l) (p + 1) = amongFirst val n l p := by
  simp [amongFirst, count_cons_of_ne hb]

theorem amongFirst_none (l : List Bytes) (p : Nat) : amongFirst val 0 l p = false := by
  simp [amongFirst]

theorem amongFirst_reverse {n : Nat} {l : List Bytes} {p : Nat} (hp : p < l.length) :
    amongFirst val n l.reverse (l.length - 1 - p) = amongLast val n l p := by
  have hget : l.reverse[l.length - 1 - p]? = l[p]? := by
    rw [getElem?_reverse (by omega)]
    congr 1
    omega
  have htake : (l.reverse.take (l.length - 1 - p)).count val = (l.drop (p + 1)).count val := by
    have hdrop : l.length - (l.length - 1 - p) = p + 1 := by omega
    rw [take_reverse, hdrop, count_reverse]
  simp [amongFirst, amongLast, hget, htake]

theorem removeFirst_eq (n : Nat) (l : List Bytes) :
    removeFirst val n l =
      (atPositions (fun p => !amongFirst val n l p) l,
        (atPositions (amongFirst val n l) l).length) := by
  induction l generalizing n with
  | nil => cases n <;> rfl
  | cons b l ih =>
    cases n with
    | zero =>
      have hall : atPositions (fun p => !amongFirst val 0 (b :: l) p) (b :: l) = b :: l :=
        atPositions_all fun p _ => by rw [amongFirst_none, Bool.not_false]
      have hnone : atPositions (amongFirst val 0 (b :: l)) (b :: l) = [] :=
        atPositions_none fun p _ => amongFirst_none _ p
      rw [hall, hnone]
      rfl
    | succ n =>
      rw [removeFirst, atPositions_cons, atPositions_cons, amongFirst_zero]
      by_cases hb : b = val
      · subst hb
        simp only [amongFirst_succ_of_eq, ih n]
        simp
      · simp only [amongFirst_succ_of_ne hb, ih (n + 1)]
        simp [hb]

theorem amongFirst_all {n : Nat} {l : List Bytes} (hn : l.length ≤ n) {p : Nat} (hp : p < l.length) :
    amongFirst val n l p = decide (l[p]? = some val) := by
  have hcount : (l.take p).count val ≤ p := by
    have hle := count_le_length (a := val) (l := l.take p)
    rw [length_take] at hle
    omega
  have hlt : (l.take p).count val < n := by omega
  simp [amongFirst, hlt]

theorem removeCount_eq (count : Int) (l : List Bytes) :
    removeCount val count l =
      (atPositions (fun p => !goes val count l p) l, (atPositions (goes val count l) l).length) := by
  unfold removeCount
  by_cases hzero : count = 0
  · subst hzero
    simp only [le_refl, if_true, removeFirst_eq]
    have hgoes : ∀ p < l.length, amongFirst val l.length l p = goes val 0 l p := by
      intro p hp
      rw [amongFirst_all (Nat.le_refl _) hp]
      rfl
    rw [atPositions_congr hgoes, atPositions_congr fun p hp => congrArg (!·) (hgoes p hp)]
  · by_cases hpos : 0 < count
    · have hgoes : goes val count l = amongFirst val count.toNat l := by
        funext p
        rw [goes, if_neg hzero, if_pos hpos]
      rw [if_pos hpos.le, if_neg hzero, removeFirst_eq, hgoes]
    · have hgoes : ∀ p < l.length,
          amongFirst val count.natAbs l.reverse (l.length - 1 - p) = goes val count l p := by
        intro p hp
        have habs : count.natAbs = (-count).toNat := by omega
        rw [amongFirst_reverse hp, goes, if_neg hzero, if_neg hpos, habs]
      have hremoved : (atPositions (amongFirst val count.natAbs l.reverse) l.reverse).length =
          (atPositions (goes val count l) l).length := by
        rw [← length_reverse, reverse_atPositions_reverse, atPositions_congr hgoes]
      have hneg : ¬ 0 ≤ count := by omega
      simp only [if_neg hneg, removeFirst_eq]
      rw [hremoved, reverse_atPositions_reverse,
        atPositions_congr fun p hp => congrArg (!·) (hgoes p hp)]

end

section

variable {val : Bytes}

theorem retainLoop_eq (remaining removed : Nat) (l : List Bytes) :
    retainLoop val remaining removed l =
      ((removeFirst val remaining l).1, removed + (removeFirst val remaining l).2) := by
  induction l generalizing remaining removed with
  | nil => cases remaining <;> rfl
  | cons item rest ih =>
    cases remaining with
    | zero =>
      have hkept : removeFirst val 0 rest = (rest, 0) := by cases rest <;> rfl
      simp [retainLoop, ih, hkept, removeFirst]
    | succ remaining =>
      by_cases hitem : item = val
      · simp [retainLoop, ih, hitem, removeFirst]
        omega
      · simp [retainLoop, ih, hitem, removeFirst]

theorem collectLoop_acc (remaining : Nat) (toRemove : List Nat) (items : List (Bytes × Nat)) :
    collectLoop val remaining toRemove items = toRemove ++ collectLoop val remaining [] items := by
  induction items generalizing remaining toRemove with
  | nil => simp [collectLoop]
  | cons item items ih =>
    obtain ⟨item, idx⟩ := item
    simp only [collectLoop]
    split_ifs
    · simp
    · rw [ih, ih _ ([] ++ [idx]), nil_append, append_assoc]
    · rw [ih]

def indexes (val : Bytes) (remaining : Nat) (l : List Bytes) : List Nat :=
  collectLoop val remaining [] l.zipIdx.reverse

theorem indexes_concat (remaining : Nat) (l : List Bytes) (b : Bytes) :
    indexes val remaining (l ++ [b]) =
      if remaining = 0 then []
      else if b = val then l.length :: indexes val (remaining - 1) l
      else indexes val remaining l := by
  have hzip : (l ++ [b]).zipIdx.reverse = (b, l.length) :: l.zipIdx.reverse := by
    simp [zipIdx_append]
  rw [indexes, hzip, collectLoop]
  split_ifs
  · rfl
  · rw [collectLoop_acc]
    rfl
  · rfl

theorem indexes_none (l : List Bytes) : indexes val 0 l = [] := by
  unfold indexes
  cases l.zipIdx.reverse <;> rfl

theorem indexes_falling (remaining : Nat) (l : List Bytes) :
    (∀ i ∈ indexes val remaining l, i < l.length) ∧ (indexes val remaining l).Pairwise (· > ·) := by
  induction l using List.reverseRecOn generalizing remaining with
  | nil => exact ⟨fun i hi => absurd hi not_mem_nil, .nil⟩
  | append_singleton l b ih =>
    rw [indexes_concat, length_append, length_singleton]
    split_ifs
    · exact ⟨fun i hi => absurd hi not_mem_nil, .nil⟩
    · obtain ⟨hlt, hfalling⟩ := ih (remaining - 1)
      refine ⟨?_, pairwise_cons.mpr ⟨hlt, hfalling⟩⟩
      intro i hi
      rcases mem_cons.mp hi with rfl | hi
      · exact Nat.lt_succ_self _
      · exact Nat.lt_succ_of_lt (hlt i hi)
    · obtain ⟨hlt, hfalling⟩ := ih remaining
      exact ⟨fun i hi => Nat.lt_succ_of_lt (hlt i hi), hfalling⟩

theorem removeIndexes_append {is : List Nat} {l : List Bytes} (hlt : ∀ i ∈ is, i < l.length)
    (hfalling : is.Pairwise (· > ·)) (tail : List Bytes) :
    removeIndexes is (l ++ tail) = removeIndexes is l ++ tail := by
  induction is generalizing l with
  | nil => rfl
  | cons i is ih =>
    obtain ⟨hbelow, hfalling⟩ := pairwise_cons.mp hfalling
    have hi := hlt i mem_cons_self
    have hlen : (l.eraseIdx i).length = l.length - 1 := length_eraseIdx_of_lt hi
    have hshorter : ∀ j ∈ is, j < (l.eraseIdx i).length := by
      intro j hj
      have hji : j < i := hbelow j hj
      rw [hlen]
      omega
    have herase : (l ++ tail).eraseIdx i = l.eraseIdx i ++ tail :=
      eraseIdx_append_of_lt_length hi tail
    show removeIndexes is ((l ++ tail).eraseIdx i) = removeIndexes is (l.eraseIdx i) ++ tail
    rw [herase, ih hshorter hfalling]

theorem removeIndexes_indexes (remaining : Nat) (l : List Bytes) :
    (removeIndexes (indexes val remaining l) l, (indexes val remaining l).length) =
      ((removeFirst val remaining l.reverse).1.reverse, (removeFirst val remaining l.reverse).2) := by
  induction l using List.reverseRecOn generalizing remaining with
  | nil => cases remaining <;> rfl
  | append_singleton l b ih =>
    rw [reverse_append, reverse_singleton, singleton_append]
    cases remaining with
    | zero => simp [indexes_none, removeFirst, removeIndexes]
    | succ remaining =>
      rw [indexes_concat, if_neg (Nat.succ_ne_zero _), removeFirst]
      by_cases hb : b = val
      · rw [if_pos hb, if_pos hb, Nat.add_sub_cancel]
        have hlast : removeIndexes (l.length :: indexes val remaining l) (l ++ [b]) =
            removeIndexes (indexes val remaining l) l := by
          show removeIndexes (indexes val remaining l) ((l ++ [b]).eraseIdx l.length) = _
          rw [eraseIdx_append_of_length_le (Nat.le_refl _), Nat.sub_self, eraseIdx_cons_zero,
            append_nil]
        obtain ⟨hkept, hcount⟩ := Prod.mk.injEq .. ▸ ih remaining
        rw [hlast, length_cons, hkept, hcount]
      · rw [if_neg hb, if_neg hb]
        have hindexes : (∀ i ∈ indexes val (remaining + 1) l, i < l.length) ∧
            (indexes val (remaining + 1) l).Pairwise (· > ·) := indexes_falling (remaining + 1) l
        obtain ⟨hlt, hfalling⟩ := hindexes
        obtain ⟨hkept, hcount⟩ := Prod.mk.injEq .. ▸ ih (remaining + 1)
        rw [removeIndexes_append hlt hfalling, hkept, hcount, reverse_cons]

theorem asUsize_of_nonneg {count : Int} (hcount : InI64 count) (hpos : 0 ≤ count) :
    asUsize count = count.toNat := by
  unfold InI64 i64Min i64Max at hcount
  unfold asUsize
  omega

theorem asUsize_neg {count : Int} (hcount : InI64 count) (hneg : count < 0) :
    asUsize (wrapI64 (-count)) = count.natAbs := by
  unfold InI64 i64Min i64Max at hcount
  have hmod : (-count).bmod (2 ^ 64) % ((2 ^ 64 : Nat) : Int) = -count % ((2 ^ 64 : Nat) : Int) :=
    Int.bmod_emod
  have hcast : ((2 ^ 64 : Nat) : Int) = 2 ^ 64 := by norm_num
  rw [hcast] at hmod
  rw [asUsize, wrapI64, hmod]
  omega

theorem lremList_eq {count : Int} (hcount : InI64 count) {l : List Bytes}
    (hlen : l.length ≤ usizeMax) : lremList val count l = removeCount val count l := by
  unfold lremList removeCount
  by_cases hneg : 0 ≤ count
  · rw [if_pos hneg, if_pos hneg, retainLoop_eq, Nat.zero_add]
    by_cases hzero : count = 0
    · rw [if_pos hzero, if_pos hzero, removeFirst_eq, removeFirst_eq]
      have hgoes : ∀ p < l.length, amongFirst val usizeMax l p = amongFirst val l.length l p := by
        intro p hp
        rw [amongFirst_all hlen hp, amongFirst_all (Nat.le_refl _) hp]
      rw [atPositions_congr hgoes, atPositions_congr fun p hp => congrArg (!·) (hgoes p hp)]
    · rw [if_neg hzero, if_neg hzero, asUsize_of_nonneg hcount hneg]
  · rw [if_neg hneg, if_neg hneg, asUsize_neg hcount (by omega)]
    exact removeIndexes_indexes count.natAbs l

end

/-- LREM removes the occurrences it is asked to, keeps the others in order, answers with the number
removed, and removes the key when nothing is left. -/
theorem lrem_removes (env : Env) (st : Store F) (key val : Bytes) (count : Int) {l : List Bytes}
    {d : Option Nat} (hlive : st.live env.clock key = some (.list l, d)) (hcount : InI64 count)
    (hlen : l.length ≤ usizeMax) :
    lremList val count l =
        (atPositions (fun p => !goes val count l p) l, (atPositions (goes val count l) l).length) ∧
      AnswersLeaving env st (lrem env key count val) (.ok (atPositions (goes val count l) l).length)
        (update (st.live env.clock) key
          (if atPositions (fun p => !goes val count l p) l = [] then none
          else some (.list (atPositions (fun p => !goes val count l p) l), d))) := by
  refine ⟨(lremList_eq hcount hlen).trans (removeCount_eq count l), ?_⟩
  have hleaves : AnswersLeaving env st (lrem env key count val) (.ok (removeCount val count l).2)
      (update (st.live env.clock) key
        (if (removeCount val count l).1 = [] then none
        else some (.list (removeCount val count l).1, d))) :=
    leaves_editList hlive _ _
  rwa [removeCount_eq] at hleaves

theorem lrem_removes_pair :
    InI64 i64Min ∧ AnswersLeaving Env.still pairStore
      (lrem Env.still (txt "k") i64Min (txt "a")) (.ok 1)
      (update (pairStore.live Env.still.clock) (txt "k") (some (.list [txt "b"], none))) := by
  have hmin : InI64 i64Min := by decide
  have hleaves := (lrem_removes Env.still pairStore (txt "k") (txt "a") i64Min live_pairStore
    hmin (by decide)).2
  exact ⟨hmin, hleaves⟩

end RocketMem
