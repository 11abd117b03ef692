import RocketMem.Engine.ShardCalls

namespace RocketMem

open Option Finmap ShardProgram HashMap SharedShard

variable {F : Type} [F64 F]

namespace SharedShard

variable {s : SharedShard F} {i : Nat}

@[simp] theorem count_bookedAt (u : CounterUpdate) (booked : HashMap Bytes Nat) (k : Bytes) :
    (s.count u booked).bookedAt k = (booked.lookup k).getD 0 := rfl

theorem storedAt_congr {s' : SharedShard F} {k : Bytes} (h : s'.map.lookup k = s.map.lookup k) :
    s'.storedAt k = s.storedAt k := by
  unfold storedAt
  rw [h]

theorem release_owner_eq_some (keys : Bytes → Bool) (k : Bytes) (j : Nat) :
    (s.release i keys).owner k = some j ↔ s.owner k = some j ∧ ¬ (j = i ∧ keys k = true) := by
  unfold release
  dsimp only
  split
  · next h =>
    constructor
    · intro hnone
      cases hnone
    · rintro ⟨hj, hkept⟩
      rw [h.1] at hj
      cases hj
      exact (hkept ⟨rfl, h.2⟩).elim
  · next h =>
    constructor
    · intro hj
      refine ⟨hj, fun ⟨hji, hk⟩ => h ⟨?_, hk⟩⟩
      rw [hj, hji]
    · exact And.left

theorem unlock_owner_eq_some (left : Outstanding) (k : Bytes) :
    (s.unlock i left).owner k = some i ↔ s.owner k = some i ∧ left.covers k = true := by
  have hrelease := release_owner_eq_some (s := s) (i := i) (fun k => !left.covers k) k i
  refine Iff.trans hrelease ?_
  simp

theorem lookup_touch (key : Bytes) (tick : Nat) (k : Bytes) :
    (s.touch key tick).storedAt k = s.storedAt k := by
  unfold touch
  split
  · next e he =>
    by_cases hk : k = key
    · subst hk
      unfold storedAt
      rw [he, lookup_insert]
      rfl
    · exact storedAt_congr (lookup_insert_of_ne _ hk)
  · rfl

/-- The counter is what it holds on account of the keys, and for a key that nobody is changing
that is what is stored under it. -/
structure Square (s : SharedShard F) : Prop where
  balance : s.balance = some (total (fun _ n => n) s.booked)
  counter : s.bytesUsed = UInt64.ofNat (total (fun _ n => n) s.booked)
  settled : ∀ k, s.owner k = none → s.bookedAt k = s.storedAt k
  excluded : ∀ i, s.writer = some i → s.readers = ∅

theorem Square.not_reading (h : s.Square) (hwriter : s.writer = some i) (j : Nat) :
    j ∉ s.readers := by
  rw [h.excluded i hwriter]
  exact Finset.notMem_empty j

structure Leaves (i : Nat) (s s' : SharedShard F) : Prop where
  writer : s'.writer = some i ↔ s.writer = some i
  map : s.writer = some i → s'.map = s.map
  reader : i ∈ s'.readers ↔ i ∈ s.readers
  owner : ∀ k, s'.owner k = some i ↔ s.owner k = some i
  account : ∀ k, s.owner k = some i → s'.storedAt k = s.storedAt k ∧ s'.bookedAt k = s.bookedAt k

theorem Leaves.refl (i : Nat) (s : SharedShard F) : Leaves i s s :=
  ⟨Iff.rfl, fun _ => rfl, Iff.rfl, fun _ => Iff.rfl, fun _ _ => ⟨rfl, rfl⟩⟩

theorem Leaves.trans {s' s'' : SharedShard F} (h : Leaves i s s') (h' : Leaves i s' s'') :
    Leaves i s s'' where
  writer := h'.writer.trans h.writer
  map hi := (h'.map (h.writer.mpr hi)).trans (h.map hi)
  reader := h'.reader.trans h.reader
  owner k := (h'.owner k).trans (h.owner k)
  account k hk := by
    obtain ⟨hstored, hbooked⟩ := h.account k hk
    obtain ⟨hstored', hbooked'⟩ := h'.account k ((h.owner k).mpr hk)
    exact ⟨hstored'.trans hstored, hbooked'.trans hbooked⟩

end SharedShard

open SharedShard

/-- Nobody changes an entry while another call that has changed it is not done with it. -/
def CountedFirst (i : Nat) (x : ShardTimes) (o : ShardOp F) (s : SharedShard F) : Prop :=
  ∀ k, o.changes x s k = true → s.owner k = none ∨ s.owner k = some i

def shardDiscipline (F : Type) [F64 F] : Discipline (ShardOp F) (SharedShard F) where
  inv := Square
  rely := Leaves
  asserts _ _ _ := True
  absent i s := ∀ k, s.owner k ≠ some i
  rely_refl := Leaves.refl
  rely_trans := Leaves.trans
  absent_stable hs _ h k hk := h k ((hs.owner k).mp hk)

section

variable {s s' : SharedShard F} {i : Nat}

theorem keeps_trans {s'' : SharedShard F} (h : (shardDiscipline F).Keeps i s s')
    (h' : (shardDiscipline F).Keeps i s' s'') : (shardDiscipline F).Keeps i s s'' :=
  ⟨h'.1, fun j hj => (h.2 j hj).trans (h'.2 j hj)⟩

theorem change_keeps (hinv : s.Square) (hwriter : s.writer = some i) {keys : Bytes → Bool}
    {map : HashMap Bytes (Entry F)}
    (hturn : ∀ k, keys k = true → s.owner k = none ∨ s.owner k = some i)
    (hmap : ∀ k, keys k = false → map.lookup k = s.map.lookup k) :
    (shardDiscipline F).Keeps i s (s.change i keys map) := by
  have hkept {k : Bytes} (hk : keys k = false) :
      (s.change i keys map).owner k = s.owner k ∧
        (s.change i keys map).storedAt k = s.storedAt k := by
    refine ⟨if_neg (by simp [hk]), storedAt_congr (hmap k hk)⟩
  have hclaimed {k : Bytes} (hk : keys k = true) : (s.change i keys map).owner k = some i :=
    if_pos hk
  refine ⟨⟨hinv.balance, hinv.counter, fun k hnone => ?_, hinv.excluded⟩, fun j hj => ?_⟩
  · cases hk : keys k with
    | true =>
      rw [hclaimed hk] at hnone
      cases hnone
    | false =>
      rw [(hkept hk).1] at hnone
      rw [(hkept hk).2]
      exact hinv.settled k hnone
  · have hother {k : Bytes} (hk : keys k = true) : s.owner k ≠ some j := by
      intro howner
      rcases hturn k hk with h | h <;> rw [h] at howner <;> cases howner
      exact hj rfl
    refine ⟨Iff.rfl, fun hw => ?_, Iff.rfl, fun k => ?_, fun k hk => ?_⟩
    · rw [hwriter] at hw
      cases hw
      exact (hj rfl).elim
    · cases hk : keys k with
      | true =>
        rw [hclaimed hk]
        refine ⟨fun h => ?_, fun h => (hother hk h).elim⟩
        cases h
        exact (hj rfl).elim
      | false => rw [(hkept hk).1]
    · cases hkeys : keys k with
      | true => exact (hother hkeys hk).elim
      | false => exact ⟨(hkept hkeys).2, rfl⟩

theorem count_keeps (hinv : s.Square) {u : CounterUpdate} {booked : HashMap Bytes Nat}
    (hpost : u.post (total (fun _ n => n) s.booked) = some (total (fun _ n => n) booked))
    (hown : ∀ k, s.owner k ≠ some i → (booked.lookup k).getD 0 = s.bookedAt k) :
    (shardDiscipline F).Keeps i s (s.count u booked) := by
  refine ⟨⟨?_, ?_, fun k hnone => ?_, hinv.excluded⟩, fun j hj => ?_⟩
  · exact (congrArg (Option.bind · fun n => u.post n) hinv.balance).trans hpost
  · exact (congrArg (CounterUpdate.apply · u) hinv.counter).trans (CounterUpdate.apply_ofNat hpost)
  · have hnone' : s.owner k = none := hnone
    rw [count_bookedAt, hown k (by simp [hnone'])]
    exact hinv.settled k hnone
  · refine ⟨Iff.rfl, fun _ => rfl, Iff.rfl, fun _ => Iff.rfl, fun k hk => ⟨rfl, ?_⟩⟩
    refine hown k fun hi => hj ?_
    rw [hi] at hk
    exact (some.inj hk).symm

theorem release_keeps (hinv : s.Square) {keys : Bytes → Bool}
    (hdone : ∀ k, s.owner k = some i → keys k = true → s.bookedAt k = s.storedAt k) :
    (shardDiscipline F).Keeps i s (s.release i keys) := by
  refine ⟨⟨hinv.balance, hinv.counter, fun k hnone => ?_, hinv.excluded⟩, fun j hj => ?_⟩
  · by_cases hk : s.owner k = some i ∧ keys k = true
    · exact hdone k hk.1 hk.2
    · have hsame : (s.release i keys).owner k = s.owner k := if_neg hk
      rw [hsame] at hnone
      exact hinv.settled k hnone
  · refine ⟨Iff.rfl, fun _ => rfl, Iff.rfl, fun k => ?_, fun _ _ => ⟨rfl, rfl⟩⟩
    rw [release_owner_eq_some]
    exact ⟨And.left, fun h => ⟨h, fun hji => hj hji.1⟩⟩

end

section

variable {i : Nat} {key : Bytes} {b n : Nat} {removed : HashMap Bytes (Entry F)}

structure Away (i : Nat) (s : SharedShard F) : Prop where
  writer : s.writer ≠ some i
  reader : i ∉ s.readers
  owner : ∀ k, s.owner k ≠ some i

structure Reading (i : Nat) (s : SharedShard F) : Prop where
  reader : i ∈ s.readers
  owner : ∀ k, s.owner k ≠ some i

structure Writing (i : Nat) (s : SharedShard F) : Prop where
  writer : s.writer = some i
  even : ∀ k, s.owner k = some i → s.bookedAt k = s.storedAt k

structure Changed (i : Nat) (key : Bytes) (b n : Nat) (s : SharedShard F) : Prop where
  writer : s.writer = some i
  owner : s.owner key = some i
  booked : s.bookedAt key = b
  stored : s.storedAt key = n
  even : ∀ k, k ≠ key → s.owner k = some i → s.bookedAt k = s.storedAt k

structure Counting (i : Nat) (key : Bytes) (b n : Nat) (s : SharedShard F) : Prop where
  writer : s.writer ≠ some i
  reader : i ∉ s.readers
  owner : s.owner key = some i
  booked : s.bookedAt key = b
  stored : s.storedAt key = n
  only : ∀ k, k ≠ key → s.owner k ≠ some i

structure Sweeping (i : Nat) (removed : HashMap Bytes (Entry F)) (s : SharedShard F) : Prop where
  writer : s.writer = some i
  gone : ∀ k e, removed.lookup k = some e →
    s.owner k = some i ∧ s.bookedAt k = entrySize k e.value ∧ s.storedAt k = 0
  even : ∀ k, removed.lookup k = none → s.owner k = some i → s.bookedAt k = s.storedAt k

structure Clearing (i : Nat) (locked : Prop) (s : SharedShard F) : Prop where
  writer : s.writer = some i ↔ locked
  reader : i ∉ s.readers
  owner : ∀ k, s.owner k = some i
  stored : ∀ k, s.storedAt k = 0

theorem Away.stable : (shardDiscipline F).Stable i (Away i) := fun _ _ hs _ h =>
  ⟨fun hw => h.writer (hs.writer.mp hw), fun hr => h.reader (hs.reader.mp hr),
    fun k hk => h.owner k ((hs.owner k).mp hk)⟩

theorem Reading.stable : (shardDiscipline F).Stable i (Reading i) := fun _ _ hs _ h =>
  ⟨hs.reader.mpr h.reader, fun k hk => h.owner k ((hs.owner k).mp hk)⟩

theorem SharedShard.Leaves.even {s s' : SharedShard F} (hs : Leaves i s s') {k : Bytes}
    (h : s.owner k = some i → s.bookedAt k = s.storedAt k) (hk : s'.owner k = some i) :
    s'.bookedAt k = s'.storedAt k := by
  have hold := (hs.owner k).mp hk
  obtain ⟨hstored, hbooked⟩ := hs.account k hold
  rw [hstored, hbooked]
  exact h hold

theorem Writing.stable : (shardDiscipline F).Stable i (Writing i) := fun _ _ hs _ h =>
  ⟨hs.writer.mpr h.writer, fun k => hs.even (h.even k)⟩

theorem Changed.stable : (shardDiscipline F).Stable i (Changed i key b n) := by
  intro s s' hs _ h
  obtain ⟨hstored, hbooked⟩ := hs.account key h.owner
  exact ⟨hs.writer.mpr h.writer, (hs.owner key).mpr h.owner, hbooked.trans h.booked,
    hstored.trans h.stored, fun k hk => hs.even (h.even k hk)⟩

theorem Counting.stable : (shardDiscipline F).Stable i (Counting i key b n) := by
  intro s s' hs _ h
  obtain ⟨hstored, hbooked⟩ := hs.account key h.owner
  exact ⟨fun hw => h.writer (hs.writer.mp hw), fun hr => h.reader (hs.reader.mp hr),
    (hs.owner key).mpr h.owner, hbooked.trans h.booked, hstored.trans h.stored,
    fun k hk howner => h.only k hk ((hs.owner k).mp howner)⟩

theorem Sweeping.stable : (shardDiscipline F).Stable i (Sweeping i removed) := by
  intro s s' hs _ h
  refine ⟨hs.writer.mpr h.writer, fun k e he => ?_, fun k hk => hs.even (h.even k hk)⟩
  obtain ⟨howner, hb, hn⟩ := h.gone k e he
  obtain ⟨hstored, hbooked⟩ := hs.account k howner
  exact ⟨(hs.owner k).mpr howner, hbooked.trans hb, hstored.trans hn⟩

theorem Clearing.stable {locked : Prop} : (shardDiscipline F).Stable i (Clearing i locked) := by
  intro s s' hs _ h
  exact ⟨hs.writer.trans h.writer, fun hr => h.reader (hs.reader.mp hr),
    fun k => (hs.owner k).mpr (h.owner k),
    fun k => (hs.account k (h.owner k)).1.trans (h.stored k)⟩

theorem Writing.seen_stable (p : Option (Entry F) → Prop) :
    (shardDiscipline F).Stable i fun s => Writing i s ∧ p (s.map.lookup key) := by
  intro s s' hs hinv h
  refine ⟨Writing.stable s s' hs hinv h.1, ?_⟩
  rw [hs.map h.1.writer]
  exact h.2

theorem Changed.seen_stable (p : Option (Entry F) → Prop) :
    (shardDiscipline F).Stable i fun s => Changed i key b n s ∧ p (s.map.lookup key) := by
  intro s s' hs hinv h
  refine ⟨Changed.stable s s' hs hinv h.1, ?_⟩
  rw [hs.map h.1.writer]
  exact h.2

theorem Changed.writing {s : SharedShard F} (h : Changed i key n n s) : Writing i s := by
  refine ⟨h.writer, fun k hk => ?_⟩
  by_cases heq : k = key
  · rw [heq, h.booked, h.stored]
  · exact h.even k heq hk

end

section

variable {i : Nat} {key : Bytes} {b n m : Nat}

abbrev ShardTriple (F : Type) [F64 F] {α : Type} (i : Nat) (P : SharedShard F → Prop)
    (p : ShardProgram F α) (Q : α → SharedShard F → Prop) : Prop :=
  (shardDiscipline F).Triple (shardMachine F) CountedFirst i P p Q

theorem step_triple {o : ShardOp F} {P : SharedShard F → Prop} {Q : o.Ret → SharedShard F → Prop}
    (hP : (shardDiscipline F).Stable i P) (hQ : ∀ r, (shardDiscipline F).Stable i (Q r))
    (hstep : ∀ s, s.Square → P s → ∀ x r s', CountedFirst i x o s →
      exec i x o s = some (r, s') → (shardDiscipline F).Keeps i s s' ∧ Q r s') :
    ShardTriple F i P (perform o) Q :=
  .perform hP hQ (fun _ _ _ => trivial) hstep

section

variable {P : SharedShard F → Prop} (hP : (shardDiscipline F).Stable i P)

include hP

theorem look_triple {o : ShardOp F}
    (hlook : ∀ x s r s', exec i x o s = some (r, s') → s' = s) :
    ShardTriple F i P (perform o) fun _ => P := by
  refine step_triple hP (fun _ => hP) fun s hinv hs x r s' _ hx => ?_
  obtain rfl := hlook x s r s' hx
  exact ⟨⟨hinv, fun j _ => .refl j s'⟩, hs⟩

theorem instantNow_triple : ShardTriple F i P (perform .instantNow) fun _ => P := by
  refine look_triple hP fun x s r s' hx => ?_
  cases hx
  rfl

theorem clockLoad_triple : ShardTriple F i P (perform .clockLoad) fun _ => P := by
  refine look_triple hP fun x s r s' hx => ?_
  cases hx
  rfl

theorem readLookup_triple : ShardTriple F i P (perform (.lookup key)) fun _ => P := by
  refine look_triple hP fun x s r s' hx => ?_
  cases hx
  rfl

end

theorem lookup_triple : ShardTriple F i (Writing i)
      (perform (.lookup key)) fun r s => Writing i s ∧ s.map.lookup key = r := by
  refine step_triple Writing.stable (fun r => Writing.seen_stable (· = r))
    fun s hinv hs x r s' _ hx => ?_
  cases hx
  exact ⟨⟨hinv, fun j _ => .refl j s⟩, hs, rfl⟩

theorem lockRead_triple : ShardTriple F i (Away i) (perform .lockRead) fun _ => Reading i := by
  refine step_triple Away.stable (fun _ => Reading.stable) fun s hinv hs x r s' _ hx => ?_
  obtain ⟨hfree, hx⟩ := ite_none_right_eq_some.mp hx
  cases hx
  refine ⟨⟨⟨hinv.balance, hinv.counter, hinv.settled, fun j hj => ?_⟩, fun j hj => ?_⟩,
    Finset.mem_insert_self i _, hs.owner⟩
  · have hj' : s.writer = some j := hj
    rw [hfree] at hj'
    cases hj'
  · exact ⟨Iff.rfl, fun _ => rfl, Finset.mem_insert.trans (or_iff_right hj), fun _ => Iff.rfl,
      fun _ _ => ⟨rfl, rfl⟩⟩

theorem Reading.unlocked {s : SharedShard F} (h : Reading i s) (hinv : s.Square) (j : Nat) :
    s.writer ≠ some j := by
  intro hj
  exact hinv.not_reading hj i h.reader

theorem dropRead_triple : ShardTriple F i (Reading i) (perform .dropRead) fun _ => Away i := by
  refine step_triple Reading.stable (fun _ => Away.stable) fun s hinv hs x r s' _ hx => ?_
  cases hx
  refine ⟨⟨⟨hinv.balance, hinv.counter, hinv.settled, fun j hj => ?_⟩, fun j hj => ?_⟩,
    hs.unlocked hinv i, Finset.notMem_erase i _, hs.owner⟩
  · exact (hs.unlocked hinv j hj).elim
  · exact ⟨Iff.rfl, fun _ => rfl, Finset.mem_erase.trans (and_iff_right hj), fun _ => Iff.rfl,
      fun _ _ => ⟨rfl, rfl⟩⟩

theorem touch_triple (tick : Nat) :
    ShardTriple F i (Reading i) (perform (.touch key tick)) fun _ => Reading i := by
  refine step_triple Reading.stable (fun _ => Reading.stable) fun s hinv hs x r s' _ hx => ?_
  cases hx
  have hfields : ∃ map, s.touch key tick = { s with map := map } := by
    unfold touch
    split
    · exact ⟨_, rfl⟩
    · exact ⟨s.map, rfl⟩
  have hstored := lookup_touch (s := s) key tick
  obtain ⟨map, hmap⟩ := hfields
  rw [hmap] at hstored ⊢
  refine ⟨⟨⟨hinv.balance, hinv.counter, fun k hk => ?_, hinv.excluded⟩, fun j hj => ?_⟩,
    hs.reader, hs.owner⟩
  · rw [hstored]
    exact hinv.settled k hk
  · exact ⟨Iff.rfl, fun hw => (hs.unlocked hinv j hw).elim, Iff.rfl, fun _ => Iff.rfl,
      fun k _ => ⟨hstored k, rfl⟩⟩

theorem lockWrite_triple : ShardTriple F i (Away i) (perform .lockWrite) fun _ => Writing i := by
  refine step_triple Away.stable (fun _ => Writing.stable) fun s hinv hs x r s' _ hx => ?_
  obtain ⟨hfree, hx⟩ := ite_none_right_eq_some.mp hx
  cases hx
  refine ⟨⟨⟨hinv.balance, hinv.counter, hinv.settled, fun _ _ => hfree.2⟩, fun j hj => ?_⟩,
    rfl, fun k hk => (hs.owner k hk).elim⟩
  have hother : some i ≠ some j := fun h => hj (some.inj h).symm
  have hnone : s.writer ≠ some j := by rw [hfree.1]; exact (some_ne_none j).symm
  exact ⟨iff_of_false hother hnone, fun hw => (hnone hw).elim, Iff.rfl, fun _ => Iff.rfl,
    fun _ _ => ⟨rfl, rfl⟩⟩

theorem unlock_keeps {s : SharedShard F} (hinv : s.Square) (hwriter : s.writer = some i) :
    (shardDiscipline F).Keeps i s { s with writer := none } := by
  refine ⟨⟨hinv.balance, hinv.counter, hinv.settled, fun _ hj => ?_⟩, fun j hj => ?_⟩
  · cases hj
  · have hother : s.writer ≠ some j := by
      rw [hwriter]
      exact fun h => hj (some.inj h).symm
    exact ⟨iff_of_false (some_ne_none j).symm hother, fun hw => (hother hw).elim, Iff.rfl,
      fun _ => Iff.rfl, fun _ _ => ⟨rfl, rfl⟩⟩

theorem dropWrite_keeps {s : SharedShard F} (hinv : s.Square) (hwriter : s.writer = some i)
    {left : Outstanding}
    (hdone : ∀ k, s.owner k = some i → left.covers k = false → s.bookedAt k = s.storedAt k) :
    (shardDiscipline F).Keeps i s (s.unlock i left) := by
  have hrelease : (shardDiscipline F).Keeps i s (s.release i fun k => !left.covers k) :=
    release_keeps hinv fun k hk hleft => hdone k hk (by simpa using hleft)
  exact keeps_trans hrelease (unlock_keeps hrelease.1 hwriter)

theorem dropWrite_triple :
    ShardTriple F i (Writing i) (perform (.dropWrite .nothing)) fun _ => Away i := by
  refine step_triple Writing.stable (fun _ => Away.stable) fun s hinv hs x r s' _ hx => ?_
  cases hx
  refine ⟨dropWrite_keeps hinv hs.writer fun k hk _ => hs.even k hk,
    (some_ne_none i).symm, hinv.not_reading hs.writer i, fun k hk => ?_⟩
  cases ((unlock_owner_eq_some .nothing k).mp hk).2

theorem dropWrite_entry_triple : ShardTriple F i (Changed i key b n)
      (perform (.dropWrite (.entry key))) fun _ => Counting i key b n := by
  refine step_triple Changed.stable (fun _ => Counting.stable) fun s hinv hs x r s' _ hx => ?_
  cases hx
  have hkept : (s.unlock i (.entry key)).owner key = some i :=
    (unlock_owner_eq_some _ key).mpr ⟨hs.owner, decide_eq_true rfl⟩
  refine ⟨dropWrite_keeps hinv hs.writer fun k hk hleft => ?_, (some_ne_none i).symm,
    hinv.not_reading hs.writer i, hkept, hs.booked, hs.stored, ?_⟩
  · exact hs.even k (of_decide_eq_false hleft) hk
  · intro k hne hk
    exact hne (of_decide_eq_true ((unlock_owner_eq_some (.entry key) k).mp hk).2)

theorem dropWrite_everything_triple : ShardTriple F i (Clearing i True)
      (perform (.dropWrite .everything)) fun _ => Clearing i False := by
  refine step_triple Clearing.stable (fun _ => Clearing.stable) fun s hinv hs x r s' _ hx => ?_
  cases hx
  have hnone (k : Bytes) (_ : s.owner k = some i)
      (hleft : Outstanding.everything.covers k = false) : s.bookedAt k = s.storedAt k := by
    cases hleft
  refine ⟨dropWrite_keeps hinv (hs.writer.mpr trivial) hnone,
    iff_of_false (some_ne_none i).symm id, hs.reader, fun k => ?_, hs.stored⟩
  exact (unlock_owner_eq_some .everything k).mpr ⟨hs.owner k, rfl⟩

theorem Writing.booked {s : SharedShard F} (hs : Writing i s) (hinv : s.Square) {k : Bytes}
    (hturn : s.owner k = none ∨ s.owner k = some i) : s.bookedAt k = s.storedAt k := by
  rcases hturn with hnone | howner
  · exact hinv.settled k hnone
  · exact hs.even k howner

theorem Writing.change_even {s : SharedShard F} (hs : Writing i s) {keys : Bytes → Bool}
    {map : HashMap Bytes (Entry F)} {k : Bytes} (hk : keys k = false)
    (hmap : map.lookup k = s.map.lookup k) (howner : (s.change i keys map).owner k = some i) :
    (s.change i keys map).bookedAt k = (s.change i keys map).storedAt k := by
  have howner' : s.owner k = some i := by
    rw [← howner]
    exact (if_neg (by simp [hk])).symm
  rw [storedAt_congr (s := s) hmap]
  exact hs.even k howner'

theorem insert_triple (r : Option (Entry F)) (e : Entry F) : ShardTriple F i
      (fun s => Writing i s ∧ s.map.lookup key = r) (perform (.insert key e))
      fun _ s => Changed i key (r.elim 0 fun e => entrySize key e.value) (entrySize key e.value) s ∧
        s.map.lookup key = some e := by
  refine step_triple (Writing.seen_stable (· = r)) (fun _ => Changed.seen_stable (· = some e))
    fun s hinv hs x _ s' hturn hx => ?_
  cases hx
  obtain ⟨hs, rfl⟩ := hs
  have hmap (k : Bytes) (hk : (ShardOp.insert key e).changes x s k = false) :
      (s.map.insert key e).lookup k = s.map.lookup k :=
    lookup_insert_of_ne _ (of_decide_eq_false hk)
  have hchanges : (ShardOp.insert key e).changes x s key = true := decide_eq_true rfl
  refine ⟨change_keeps hinv hs.writer hturn hmap, ⟨hs.writer, if_pos hchanges,
    hs.booked hinv (hturn key hchanges), ?_, fun k hk howner => ?_⟩, lookup_insert s.map⟩
  · unfold storedAt change
    rw [lookup_insert]
    rfl
  · have hkept : (ShardOp.insert key e).changes x s k = false := decide_eq_false hk
    exact hs.change_even hkept (hmap k hkept) howner

theorem remove_triple (p : Option (Entry F) → Prop) :
    ShardTriple F i (fun s => Writing i s ∧ p (s.map.lookup key)) (perform (.remove key))
      fun r s => p r ∧
        (r.elim (Writing i s) fun e => Changed i key (entrySize key e.value) 0 s) := by
  have hstable (r : Option (Entry F)) : (shardDiscipline F).Stable i fun s =>
      p r ∧ (r.elim (Writing i s) fun e => Changed i key (entrySize key e.value) 0 s) := by
    intro s s' hs hinv h
    cases r with
    | none => exact ⟨h.1, Writing.stable s s' hs hinv h.2⟩
    | some e => exact ⟨h.1, Changed.stable s s' hs hinv h.2⟩
  refine step_triple (Writing.seen_stable p) hstable fun s hinv hs x r s' hturn hx => ?_
  cases hx
  obtain ⟨hs, hp⟩ := hs
  have hmap (k : Bytes) (hk : (ShardOp.remove key : ShardOp F).changes x s k = false) :
      (s.map.erase key).lookup k = s.map.lookup k := by
    by_cases heq : k = key
    · subst heq
      have hnone : s.map.lookup k = none := by
        simpa [ShardOp.changes] using hk
      rw [lookup_erase, hnone]
    · exact lookup_erase_ne heq
  refine ⟨change_keeps hinv hs.writer hturn hmap, hp, ?_⟩
  cases hlookup : s.map.lookup key with
  | none =>
    have hkept (k : Bytes) : (ShardOp.remove key : ShardOp F).changes x s k = false := by
      simp [ShardOp.changes, hlookup]
    exact ⟨hs.writer, fun k howner => hs.change_even (hkept k) (hmap k (hkept k)) howner⟩
  | some e =>
    have hchanges : (ShardOp.remove key : ShardOp F).changes x s key = true := by
      simp [ShardOp.changes, hlookup]
    have hstored : s.storedAt key = entrySize key e.value := by
      rw [storedAt, hlookup]
      rfl
    refine ⟨hs.writer, if_pos hchanges, (hs.booked hinv (hturn key hchanges)).trans hstored, ?_,
      fun k hk howner => ?_⟩
    · unfold storedAt change
      rw [lookup_erase]
      rfl
    · have hkept : (ShardOp.remove key : ShardOp F).changes x s k = false := by
        simp [ShardOp.changes, hk]
      exact hs.change_even hkept (hmap k hkept) howner

theorem retainLive_triple : ShardTriple F i (Writing i)
      (perform .retainLive) fun removed => Sweeping i removed := by
  refine step_triple Writing.stable (fun _ => Sweeping.stable) fun s hinv hs x r s' hturn hx => ?_
  cases hx
  have hlive (k : Bytes) :
      (retain (fun k e => !e.isExpired (x.nowAt k)) s.map).lookup k =
        if ((s.expired x).lookup k).isSome then none else s.map.lookup k := by
    unfold expired
    rw [lookup_retain, lookup_retain]
    cases s.map.lookup k with
    | none => rfl
    | some e => cases he : e.isExpired (x.nowAt k) <;> simp [Option.filter, he]
  have hmap (k : Bytes) (hk : (ShardOp.retainLive : ShardOp F).changes x s k = false) :
      (retain (fun k e => !e.isExpired (x.nowAt k)) s.map).lookup k = s.map.lookup k := by
    have hk' : ((s.expired x).lookup k).isSome = false := hk
    rw [hlive, hk']
    rfl
  refine ⟨change_keeps hinv hs.writer hturn hmap, hs.writer, fun k e he => ?_,
    fun k hk howner => ?_⟩
  · have hchanges : (ShardOp.retainLive : ShardOp F).changes x s k = true := by
      rw [ShardOp.changes, he]
      rfl
    have hlookup : s.map.lookup k = some e := by
      rw [expired, lookup_retain] at he
      exact (filter_eq_some_iff.mp he).1
    have hstored : s.storedAt k = entrySize k e.value := by
      rw [storedAt, hlookup]
      rfl
    refine ⟨if_pos hchanges, (hs.booked hinv (hturn k hchanges)).trans hstored, ?_⟩
    unfold storedAt change
    rw [hlive, he]
    rfl
  · have hchanges : (ShardOp.retainLive : ShardOp F).changes x s k = false := by
      rw [ShardOp.changes, hk]
      rfl
    exact hs.change_even hchanges (hmap k hchanges) howner

theorem clearMap_triple :
    ShardTriple F i (Writing i) (perform .clearMap) fun _ => Clearing i True := by
  refine step_triple Writing.stable (fun _ => Clearing.stable) fun s hinv hs x r s' hturn hx => ?_
  cases hx
  exact ⟨change_keeps hinv hs.writer hturn (fun k hk => by cases hk),
    iff_of_true hs.writer trivial, hinv.not_reading hs.writer i, fun _ => rfl, fun _ => rfl⟩

variable {s : SharedShard F}

theorem total_book (s : SharedShard F) (key : Bytes) (v : Nat) :
    total (fun _ n => n) (s.booked.insert key v) + s.bookedAt key =
      total (fun _ n => n) s.booked + v := by
  have hold := total_erase (fun _ n => n) s.booked key
  have hnew := total_insert (fun _ n => n) s.booked key v
  have hat : s.bookedAt key = (s.booked.lookup key).elim 0 fun n => n := by
    unfold bookedAt
    cases s.booked.lookup key <;> rfl
  omega

theorem lookup_book_of_owner (howner : s.owner key = some i) (v : Nat)
    (k : Bytes) (hk : s.owner k ≠ some i) :
    ((s.booked.insert key v).lookup k).getD 0 = s.bookedAt k := by
  have hne : k ≠ key := by
    rintro rfl
    exact hk howner
  rw [lookup_insert_of_ne _ hne]
  rfl

theorem fetchSub_keeps (hinv : s.Square) (howner : s.owner key = some i)
    (hm : m ≤ s.bookedAt key) :
    (shardDiscipline F).Keeps i s
      (s.count (.sub m) (s.booked.insert key (s.bookedAt key - m))) := by
  refine count_keeps hinv ?_ (lookup_book_of_owner howner _)
  have htotal := total_book s key (s.bookedAt key - m)
  have hsum : total (fun _ n => n) s.booked =
      total (fun _ n => n) (s.booked.insert key (s.bookedAt key - m)) + m := by omega
  rw [hsum]
  exact CounterUpdate.post_sub _ _

theorem fetchAdd_keeps (hinv : s.Square) (howner : s.owner key = some i)
    (hm : s.bookedAt key + m = s.storedAt key) :
    (shardDiscipline F).Keeps i s
      ((s.count (.add m) (s.booked.insert key (s.bookedAt key + m))).release i
        fun k => decide (k = key)) := by
  have hcount : (shardDiscipline F).Keeps i s
      (s.count (.add m) (s.booked.insert key (s.bookedAt key + m))) := by
    refine count_keeps hinv ?_ (lookup_book_of_owner howner _)
    have htotal := total_book s key (s.bookedAt key + m)
    refine congrArg some ?_
    omega
  refine keeps_trans hcount (release_keeps hcount.1 fun k _ hk => ?_)
  rw [of_decide_eq_true hk, count_bookedAt, lookup_insert]
  exact hm

theorem bookedAt_book_of_ne {u : CounterUpdate} {v : Nat} {k : Bytes}
    (hk : k ≠ key) : (s.count u (s.booked.insert key v)).bookedAt k = s.bookedAt k := by
  rw [count_bookedAt, lookup_insert_of_ne _ hk]
  rfl

theorem bookedAt_book {u : CounterUpdate} {v : Nat} :
    (s.count u (s.booked.insert key v)).bookedAt key = v := by
  rw [count_bookedAt, lookup_insert]
  rfl

theorem fetchSub_triple (hm : m ≤ b) : ShardTriple F i (Changed i key b n)
      (perform (.fetchSub key m)) fun _ => Changed i key (b - m) n := by
  refine step_triple Changed.stable (fun _ => Changed.stable) fun s hinv hs x r s' _ hx => ?_
  cases hx
  have hb := hs.booked
  refine ⟨fetchSub_keeps hinv hs.owner (hb ▸ hm), hs.writer, hs.owner, ?_, hs.stored,
    fun k hk howner => ?_⟩
  · rw [bookedAt_book, hb]
  · rw [bookedAt_book_of_ne hk]
    exact hs.even k hk howner

theorem fetchAdd_triple (hm : b + m = n) : ShardTriple F i (Changed i key b n)
      (perform (.fetchAdd key m)) fun _ => Writing i := by
  refine step_triple Changed.stable (fun _ => Writing.stable) fun s hinv hs x r s' _ hx => ?_
  cases hx
  refine ⟨fetchAdd_keeps hinv hs.owner ?_, hs.writer, fun k howner => ?_⟩
  · rw [hs.booked, hs.stored, hm]
  · obtain ⟨howner, hkept⟩ := (release_owner_eq_some _ k i).mp howner
    have hne : k ≠ key := fun h => hkept ⟨rfl, decide_eq_true h⟩
    refine (bookedAt_book_of_ne (u := .add m) hne).trans ?_
    exact hs.even k hne howner

theorem fetchSub_late_triple (hm : m ≤ b) : ShardTriple F i (Counting i key b n)
      (perform (.fetchSub key m)) fun _ => Counting i key (b - m) n := by
  refine step_triple Counting.stable (fun _ => Counting.stable) fun s hinv hs x r s' _ hx => ?_
  cases hx
  have hb := hs.booked
  refine ⟨fetchSub_keeps hinv hs.owner (hb ▸ hm), hs.writer, hs.reader, hs.owner, ?_, hs.stored,
    hs.only⟩
  rw [bookedAt_book, hb]

theorem fetchAdd_late_triple (hm : b + m = n) : ShardTriple F i (Counting i key b n)
      (perform (.fetchAdd key m)) fun _ => Away i := by
  refine step_triple Counting.stable (fun _ => Away.stable) fun s hinv hs x r s' _ hx => ?_
  cases hx
  refine ⟨fetchAdd_keeps hinv hs.owner ?_, hs.writer, hs.reader, fun k howner => ?_⟩
  · rw [hs.booked, hs.stored, hm]
  · obtain ⟨howner, hkept⟩ := (release_owner_eq_some _ k i).mp howner
    exact hs.only k (fun h => hkept ⟨rfl, decide_eq_true h⟩) howner

theorem fetchSubAll_triple (removed : HashMap Bytes (Entry F)) : ShardTriple F i (Sweeping i removed)
      (perform (.fetchSubAll removed)) fun _ => Writing i := by
  refine step_triple Sweeping.stable (fun _ => Writing.stable) fun s hinv hs x r s' _ hx => ?_
  cases hx
  let booked := retain (fun k (_ : Nat) => (removed.lookup k).isNone) s.booked
  have hlookup (k : Bytes) : (booked.lookup k).getD 0 =
      if (removed.lookup k).isNone then s.bookedAt k else 0 := by
    unfold bookedAt
    rw [lookup_retain]
    cases hk : removed.lookup k <;> cases s.booked.lookup k <;> rfl
  -- what is taken out of the books is what has been removed from the map
  have hout : total (fun _ n => n)
      (retain (fun k (_ : Nat) => !(removed.lookup k).isNone) s.booked) =
      total (fun k e => entrySize k e.value) removed := by
    refine total_congr fun k => ?_
    rw [lookup_retain]
    cases hk : removed.lookup k with
    | none => cases s.booked.lookup k <;> rfl
    | some e =>
      have hsize := (hs.gone k e hk).2.1
      unfold bookedAt at hsize
      cases hb : s.booked.lookup k with
      | none => rw [hb] at hsize; exact hsize
      | some v => rw [hb] at hsize; exact hsize
  have htotal := total_retain (fun _ n => n) (fun k (_ : Nat) => (removed.lookup k).isNone) s.booked
  refine ⟨count_keeps hinv ?_ fun k hk => ?_, hs.writer, fun k howner => ?_⟩
  · rw [← htotal, hout]
    exact CounterUpdate.post_sub _ _
  · refine (hlookup k).trans ?_
    cases hr : removed.lookup k with
    | none => rfl
    | some e => exact (hk (hs.gone k e hr).1).elim
  · refine (hlookup k).trans ?_
    cases hr : removed.lookup k with
    | none => exact hs.even k hr howner
    | some e => exact (hs.gone k e hr).2.2.symm

theorem storeZero_triple :
    ShardTriple F i (Clearing i False) (perform .storeZero) fun _ => Away i := by
  refine step_triple Clearing.stable (fun _ => Away.stable) fun s hinv hs x r s' _ hx => ?_
  cases hx
  have hcount : (shardDiscipline F).Keeps i s (s.count .reset ∅) :=
    count_keeps hinv rfl fun k hk => (hk (hs.owner k)).elim
  have hrelease : (shardDiscipline F).Keeps i (s.count .reset ∅)
      ((s.count .reset ∅).release i fun _ => true) :=
    release_keeps hcount.1 fun k _ _ => (hs.stored k).symm
  refine ⟨keeps_trans hcount hrelease, hs.writer.mp, hs.reader, fun k howner => ?_⟩
  exact ((release_owner_eq_some _ k i).mp howner).2 ⟨rfl, rfl⟩

end

section

variable {i : Nat} {key : Bytes}

theorem Changed.counted {n : Nat} :
    ∀ s : SharedShard F, (shardDiscipline F).inv s → Changed i key (n - n) 0 s → Writing i s := by
  intro s _ h
  rw [Nat.sub_self] at h
  exact h.writing

theorem dropExpired_triple : ShardTriple F i (Writing i) (dropExpired key) fun _ => Writing i := by
  refine .bind lookup_triple fun r => ?_
  cases r with
  | none => exact .ret (Writing.seen_stable (· = none)) fun _ _ hs => hs.1
  | some e =>
    refine .bind (instantNow_triple (Writing.seen_stable (· = some e))) fun now => ?_
    cases e.isExpired now with
    | false => exact .ret (Writing.seen_stable (· = some e)) fun _ _ hs => hs.1
    | true =>
      refine .bind (remove_triple (· = some e)) fun r => ?_
      refine .conseq (fetchSub_triple (b := entrySize key e.value) (n := 0) le_rfl)
        (fun s hs => ?_) fun _ => Changed.counted
      obtain ⟨rfl, hs⟩ := hs
      exact hs

theorem get_triple : ShardTriple F i (Away i) (get key) fun _ => Away i := by
  refine .bind lockRead_triple fun _ => ?_
  refine .bind (readLookup_triple Reading.stable) fun r => ?_
  have hgone : ShardTriple F i (Away i)
      (.ret none : ShardProgram F (Option (Value F))) fun _ => Away i :=
    .ret Away.stable fun _ _ hs => hs
  cases r with
  | none => exact .bind dropRead_triple fun _ => hgone
  | some e =>
    refine .bind (instantNow_triple Reading.stable) fun now => ?_
    cases e.isExpired now with
    | false =>
      refine .bind (clockLoad_triple Reading.stable) fun tick => ?_
      refine .bind (touch_triple tick) fun _ => ?_
      exact .bind dropRead_triple fun _ => .ret Away.stable fun _ _ hs => hs
    | true =>
      refine .bind dropRead_triple fun _ => .bind lockWrite_triple fun _ => ?_
      exact .bind dropExpired_triple fun _ => .bind dropWrite_triple fun _ => hgone

theorem set_triple (value : Value F) :
    ShardTriple F i (Away i) (set key value) fun _ => Away i := by
  refine .bind lockWrite_triple fun _ => .bind lookup_triple fun r => ?_
  refine .bind (clockLoad_triple (Writing.seen_stable (· = r))) fun tick => ?_
  refine .bind (insert_triple r _) fun _ => ?_
  refine .bind (dropWrite_entry_triple.pre fun _ hs => hs.1) fun _ => ?_
  cases r with
  | none => exact fetchAdd_late_triple (Nat.zero_add _)
  | some e =>
    refine .bind (fetchSub_late_triple le_rfl) fun _ => fetchAdd_late_triple ?_
    rw [elim_some, Nat.sub_self, Nat.zero_add]

theorem del_triple : ShardTriple F i (Away i) (del key) fun _ => Away i := by
  have hdone (b : Bool) : ShardTriple F i (Away i)
      (.ret b : ShardProgram F Bool) fun _ => Away i := .ret Away.stable fun _ _ hs => hs
  refine .bind lockWrite_triple fun _ => ?_
  refine .bind ((remove_triple fun _ => True).pre fun s hs => ⟨hs, trivial⟩) fun r => ?_
  cases r with
  | none =>
    refine .bind (dropWrite_triple.pre fun s hs => hs.2) fun _ => hdone false
  | some e =>
    refine .pre ?_ fun s hs => hs.2
    refine .bind (instantNow_triple Changed.stable) fun now => ?_
    refine .bind (.conseq (fetchSub_triple le_rfl) (fun _ hs => hs) fun _ => Changed.counted)
      fun _ => ?_
    exact .bind dropWrite_triple fun _ => hdone _

theorem seen_triple {o : ShardOp F} {P : SharedShard F → Prop} {Q : o.Ret → SharedShard F → Prop}
    (h : ShardTriple F i P (perform o) Q)
    (hP : ∀ s, P s → s.writer = some i) (hQ : ∀ r s, Q r s → s.writer = some i)
    (hmap : ∀ x s r s', exec i x o s = some (r, s') → s'.map = s.map)
    (p : Option (Entry F) → Prop) :
    ShardTriple F i (fun s => P s ∧ p (s.map.lookup key)) (perform o)
      fun r s => Q r s ∧ p (s.map.lookup key) := by
  rintro s ⟨hs, hp⟩ s₁ hs₁ hinv₁
  obtain ⟨hassert, hstep⟩ := h s hs s₁ hs₁ hinv₁
  refine ⟨hassert, fun x r s₂ hx hexec => ?_⟩
  obtain ⟨hkeeps, hpost⟩ := hstep x r s₂ hx hexec
  have hwriter : s₂.writer = some i := hQ r s₂ (hpost s₂ (.refl i s₂) hkeeps.1)
  refine ⟨hkeeps, fun s₃ hs₃ hinv₃ => ⟨hpost s₃ hs₃ hinv₃, ?_⟩⟩
  rw [hs₃.map hwriter, hmap x s₁ r s₂ hexec, hs₁.map (hP s hs)]
  exact hp

theorem addDelta_triple {delta : Int} {b n : Nat} (hn : (n : Int) = b + delta)
    (p : Option (Entry F) → Prop) :
    ShardTriple F i
      (fun s => Changed i key b n s ∧ p (s.map.lookup key)) (addDelta key delta)
      fun _ s => Writing i s ∧ p (s.map.lookup key) := by
  unfold addDelta
  split
  · refine seen_triple (fetchAdd_triple (by omega)) (fun _ hs => hs.writer)
      (fun _ _ hs => hs.writer) (fun x s r s' hx => ?_) p
    cases hx
    rfl
  · split
    · have hfits : (-delta).toNat ≤ b := by omega
      have hcounted : b - (-delta).toNat = n := by omega
      refine .conseq (seen_triple (fetchSub_triple hfits) (fun _ hs => hs.writer)
        (fun _ _ hs => hs.writer) (fun x s r s' hx => ?_) p) (fun _ hs => hs) fun _ s _ hs => ?_
      · cases hx
        rfl
      · rw [hcounted] at hs
        exact ⟨hs.1.writing, hs.2⟩
    · refine .ret (Changed.seen_stable p) fun s _ hs => ?_
      have hsame : b = n := by omega
      rw [hsame] at hs
      exact ⟨hs.1.writing, hs.2⟩

theorem withMutDelta_triple {f : Value F → Value F × Int} (hf : Priced f) :
    ShardTriple F i (Away i) (withMutDelta key f) fun _ => Away i := by
  refine .bind lockWrite_triple fun _ => .bind dropExpired_triple fun _ => ?_
  refine .bind lookup_triple fun r => ?_
  have hdone (v : Option (Value F)) :
      ShardTriple F i (Writing i) (do perform (.dropWrite .nothing); return v) fun _ => Away i :=
    .bind dropWrite_triple fun _ => .ret Away.stable fun _ _ hs => hs
  cases r with
  | none => exact (hdone none).pre fun s hs => hs.1
  | some e =>
    refine .bind (clockLoad_triple (Writing.seen_stable (· = some e))) fun tick => ?_
    refine .bind (insert_triple (some e) _) fun _ => ?_
    let e' : Entry F := ⟨(f e.value).1, e.expiresAt, tick⟩
    have hprice := hf e.value
    refine .bind (addDelta_triple ?_ (· = some e')) fun _ => ?_
    · simp only [elim_some, entrySize]
      omega
    · cases (f e.value).1.isEmptyCollection with
      | false => exact (hdone (some e.value)).pre fun s hs => hs.1
      | true =>
        refine .bind (remove_triple (· = some e')) fun r => ?_
        refine .bind (.conseq (fetchSub_triple (b := entrySize key e'.value) (n := 0) le_rfl)
          (fun s hs => ?_) fun _ => Changed.counted) fun _ => hdone (some e.value)
        obtain ⟨rfl, hs⟩ := hs
        exact hs

theorem removeExpired_triple : ShardTriple F i (Away i) removeExpired fun _ => Away i := by
  refine .bind lockWrite_triple fun _ => .bind retainLive_triple fun removed => ?_
  refine .bind (fetchSubAll_triple removed) fun _ => .bind dropWrite_triple fun _ => ?_
  exact .ret Away.stable fun _ _ hs => hs

theorem clear_triple : ShardTriple F i (Away i) clear fun _ => Away i :=
  .bind lockWrite_triple fun _ => .bind clearMap_triple fun _ =>
    .bind dropWrite_everything_triple fun _ => storeZero_triple

theorem call_triple (c : ShardCall F) : ShardTriple F i (Away i) c.program fun _ => Away i := by
  have hdone (reply : ShardReply F) :
      ShardTriple F i (Away i) (.ret reply) fun _ => Away i := .ret Away.stable fun _ _ hs => hs
  cases c with
  | get key => exact .bind get_triple fun _ => hdone _
  | set key value => exact .bind (set_triple value) fun _ => hdone _
  | del key => exact .bind del_triple fun _ => hdone _
  | withMutDelta key f => exact .bind (withMutDelta_triple f.priced) fun _ => hdone _
  | removeExpired => exact .bind removeExpired_triple fun _ => hdone _
  | clear => exact .bind clear_triple fun _ => hdone _

end

def ShardTimes.still (now tick : Nat) : ShardTimes := ⟨now, fun _ => now, tick⟩

def shardStart (map : HashMap Bytes (Entry F)) (calls : Nat → Option (ShardCall F)) :
    Config (ShardOp F) ShardOp.Ret (ShardReply F) (SharedShard F) :=
  ⟨.atRest map, fun i => (calls i).map ShardCall.program⟩

/-- More has never been subtracted from the counter than it held, so it is a number of bytes; and
when all calls have returned it is the bytes of the entries. -/
def BytesKept (cfg : Config (ShardOp F) ShardOp.Ret (ShardReply F) (SharedShard F)) : Prop :=
  (∃ n, cfg.shared.balance = some n ∧ cfg.shared.bytesUsed = UInt64.ofNat n) ∧
    (cfg.Settled → cfg.shared.balance =
      some (total (fun k e => entrySize k e.value) cfg.shared.map))

theorem bookedAt_atRest (map : HashMap Bytes (Entry F)) (k : Bytes) :
    (atRest map).bookedAt k = (atRest map).storedAt k := by
  unfold bookedAt storedAt atRest sizes
  dsimp only
  rw [lookup_filterMapValues]
  cases map.lookup k <;> rfl

theorem total_booked {s : SharedShard F} (h : ∀ k, s.bookedAt k = s.storedAt k) :
    total (fun _ n => n) s.booked = total (fun k e => entrySize k e.value) s.map := by
  refine total_congr fun k => ?_
  have hk := h k
  unfold bookedAt storedAt at hk
  cases hb : s.booked.lookup k with
  | none => rw [hb] at hk; exact hk
  | some v => rw [hb] at hk; exact hk

theorem atRest_square (map : HashMap Bytes (Entry F)) : (atRest map).Square := by
  have htotal := total_booked (bookedAt_atRest map)
  refine ⟨congrArg some htotal.symm, congrArg UInt64.ofNat htotal.symm,
    fun k _ => bookedAt_atRest map k, fun i hi => ?_⟩
  cases hi

theorem sustains_shardStart (map : HashMap Bytes (Entry F)) (calls : Nat → Option (ShardCall F)) :
    (shardDiscipline F).Sustains (shardMachine F) CountedFirst (fun i _ => Away i)
      (shardStart map calls) := by
  have haway (i : Nat) : Away i (atRest map) :=
    ⟨(some_ne_none i).symm, Finset.notMem_empty i, fun _ => (some_ne_none i).symm⟩
  refine ⟨atRest_square map, fun i p hp => ?_, fun i _ => (haway i).owner⟩
  obtain ⟨c, -, rfl⟩ := map_eq_some_iff.mp hp
  exact call_triple c _ (haway i)

/-- Whatever the calls on a shard and however their steps interleave, as long as nobody changes an
entry that another call has changed and not counted yet. -/
theorem bytes_kept (map : HashMap Bytes (Entry F)) (calls : Nat → Option (ShardCall F))
    {cfg : Config (ShardOp F) ShardOp.Ret (ShardReply F) (SharedShard F)}
    (h : (shardMachine F).Reaches CountedFirst (shardStart map calls) cfg) : BytesKept cfg := by
  have hsustains := Discipline.sound (sustains_shardStart map calls) h
  have hinv : cfg.shared.Square := hsustains.inv
  refine ⟨⟨_, hinv.balance, hinv.counter⟩, fun hsettled => ?_⟩
  have hnobody (k : Bytes) : cfg.shared.owner k = none := by
    cases howner : cfg.shared.owner k with
    | none => rfl
    | some i =>
      cases hi : cfg.threads i with
      | none => exact (hsustains.absent i hi k howner).elim
      | some p =>
        obtain ⟨a, rfl⟩ := hsettled i p hi
        exact ((hsustains.ret hi).owner k howner).elim
  rw [hinv.balance, total_booked fun k => hinv.settled k (hnobody k)]

theorem countedFirst_of_free {i : Nat} {x : ShardTimes} {o : ShardOp F} {s : SharedShard F}
    (h : ∀ k, s.owner k = none) : CountedFirst i x o s := fun k _ => .inl (h k)

theorem shardStart_threads_eq_none {map : HashMap Bytes (Entry F)} {calls : List (ShardCall F)}
    {i : Nat} (hi : calls.length ≤ i) : (shardStart map fun i => calls[i]?).threads i = none := by
  unfold shardStart
  dsimp only
  rw [List.getElem?_eq_none hi]
  rfl

theorem settled_pair {permits : Nat → ShardTimes → ShardOp F → SharedShard F → Prop}
    {map : HashMap Bytes (Entry F)} {a b : ShardCall F} {r r' : ShardReply F}
    {cfg : Config (ShardOp F) ShardOp.Ret (ShardReply F) (SharedShard F)}
    (h : (shardMachine F).Reaches permits (shardStart map fun i => [a, b][i]?) cfg)
    (ha : cfg.threads 0 = some (.ret r)) (hb : cfg.threads 1 = some (.ret r')) : cfg.Settled := by
  intro i p hp
  match i with
  | 0 => exact ⟨r, some.inj (hp.symm.trans ha)⟩
  | 1 => exact ⟨r', some.inj (hp.symm.trans hb)⟩
  | i + 2 =>
    have hnone := h.threads_eq_none (shardStart_threads_eq_none (Nat.le_add_left 2 i))
    cases hnone.symm.trans hp

/-- A `set` runs while another one, of another key, has released the lock and not counted yet. -/
theorem bytes_kept_set :
    ∃ cfg : Config (ShardOp Score) ShardOp.Ret (ShardReply Score)
        (SharedShard Score),
      (shardMachine Score).Reaches CountedFirst
        (shardStart ∅ fun i => [.set (txt "k") (.string (txt "v")),
          .set (txt "l") (.string (txt "v"))][i]?) cfg ∧
        cfg.Settled ∧ cfg.shared.bytesUsed = 100 ∧ BytesKept cfg := by
  have hstart : (shardMachine Score).Reaches CountedFirst
      (shardStart ∅ fun i => [.set (txt "k") (.string (txt "v")),
        .set (txt "l") (.string (txt "v"))][i]?) _ := .refl
  have hset := hstart.runs (i := 0) rfl <|
    .call (.still 0 0) (countedFirst_of_free fun _ => rfl) rfl <|
    .call (.still 0 0) (countedFirst_of_free fun _ => rfl) rfl <|
    .call (.still 0 0) (countedFirst_of_free fun _ => rfl) rfl <|
    .call (.still 0 0) (countedFirst_of_free fun _ => rfl) rfl <|
    .call (.still 0 0) (fun k hk => by cases hk) rfl <| .refl _ _
  have hother := hset.runs (i := 1) rfl <|
    .call (.still 0 0) (fun k hk => by cases hk) rfl <|
    .call (.still 0 0) (fun k hk => by cases hk) rfl <|
    .call (.still 0 0) (fun k hk => by cases hk) rfl <|
    .call (.still 0 0) (fun k hk => .inl (by obtain rfl := of_decide_eq_true hk; rfl)) rfl <|
    .call (.still 0 0) (fun k hk => by cases hk) rfl <|
    .call (.still 0 0) (fun k hk => by cases hk) rfl <| .refl _ _
  have hreach := hother.runs (i := 0) rfl <|
    .call (.still 0 0) (fun k hk => by cases hk) rfl <| .refl _ _
  exact ⟨_, hreach, settled_pair hreach rfl rfl, by decide, bytes_kept _ _ hreach⟩

/-- A `del` subtracts the bytes of an entry that `set` has not counted yet; and what a `set` has
counted goes when a `clear` that came before it resets the counter. -/
theorem bytes_lost_to_others :
    (∃ cfg : Config (ShardOp Score) ShardOp.Ret (ShardReply Score)
        (SharedShard Score),
      (shardMachine Score).Reaches (fun _ _ _ _ => True)
        (shardStart ∅ fun i => [.set (txt "k") (.string (txt "v")), .del (txt "k")][i]?) cfg ∧
        cfg.shared.balance = none) ∧
    ∃ cfg : Config (ShardOp Score) ShardOp.Ret (ShardReply Score)
        (SharedShard Score),
      (shardMachine Score).Reaches (fun _ _ _ _ => True)
        (shardStart ∅ fun i => [.set (txt "k") (.string (txt "v")), .clear][i]?) cfg ∧
        cfg.Settled ∧ cfg.shared.bytesUsed = 0 ∧
        total (fun k e => entrySize k e.value) cfg.shared.map = 50 := by
  constructor
  · have hstart : (shardMachine Score).Reaches (fun _ _ _ _ => True)
        (shardStart ∅ fun i => [.set (txt "k") (.string (txt "v")), .del (txt "k")][i]?) _ := .refl
    have hset := hstart.runs (i := 0) rfl <|
      .call (.still 0 0) trivial rfl <| .call (.still 0 0) trivial rfl <|
      .call (.still 0 0) trivial rfl <| .call (.still 0 0) trivial rfl <|
      .call (.still 0 0) trivial rfl <| .refl _ _
    have hdel := hset.runs (i := 1) rfl <|
      .call (.still 0 0) trivial rfl <| .call (.still 0 0) trivial rfl <|
      .call (.still 0 0) trivial rfl <| .call (.still 0 0) trivial rfl <| .refl _ _
    exact ⟨_, hdel, rfl⟩
  · have hstart : (shardMachine Score).Reaches (fun _ _ _ _ => True)
        (shardStart ∅ fun i => [.set (txt "k") (.string (txt "v")), .clear][i]?) _ := .refl
    have hclear := hstart.runs (i := 1) rfl <|
      .call (.still 0 0) trivial rfl <| .call (.still 0 0) trivial rfl <|
      .call (.still 0 0) trivial rfl <| .refl _ _
    have hset := hclear.runs (i := 0) rfl <|
      .call (.still 0 0) trivial rfl <| .call (.still 0 0) trivial rfl <|
      .call (.still 0 0) trivial rfl <| .call (.still 0 0) trivial rfl <|
      .call (.still 0 0) trivial rfl <| .call (.still 0 0) trivial rfl <| .refl _ _
    have hreset := hset.runs (i := 1) rfl <| .call (.still 0 0) trivial rfl <| .refl _ _
    exact ⟨_, hreset, settled_pair hreset rfl rfl, rfl, by decide⟩

end RocketMem
