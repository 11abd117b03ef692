import Mathlib.Data.Finset.Insert
import Mathlib.Order.WellFounded
import Mathlib.Data.Fintype.EquivFin
import RocketMem.Framework.RelyGuarantee

namespace RocketMem

open Function

variable {Op : Type} {Ret : Op → Type} {χ σ α β κ : Type} [LinearOrder κ] [Fintype κ]

/-- Thread `i` lets go of those of the locks in `R` that it holds. -/
def letGo (i : Nat) (R : Finset κ) (holder : κ → Option Nat) (l : κ) : Option Nat :=
  if holder l = some i ∧ l ∈ R then none else holder l

/-- Locks that the threads of a machine take in an order. `wants` is the lock that an operation
waits for and takes, `frees` are the locks that it lets go of. Nothing but a lock keeps an operation
that is `ready` waiting. -/
structure LockOrder (m : Machine Op Ret χ σ) (κ : Type) [LinearOrder κ] [Fintype κ] where
  holder : σ → κ → Option Nat
  wants : Op → Option κ
  frees : Op → Finset κ
  ready : Op → Prop
  taken : ∀ {i x o r s s' l}, m.exec i x o s = some (r, s') → wants o = some l →
    holder s l = none ∧ holder s' = update (holder s) l (some i)
  freed : ∀ {i x o r s s'}, m.exec i x o s = some (r, s') → wants o = none →
    holder s' = letGo i (frees o) (holder s)
  unwound : ∀ i s, holder (m.unwind i s) = letGo i Finset.univ (holder s)
  free : ∀ {i o s}, ready o → (∀ l, wants o = some l → holder s l = none) →
    ∃ x r s', m.exec i x o s = some (r, s')

/-- A thread can make its next step. -/
def Machine.GoesOn (m : Machine Op Ret χ σ) (cfg : Config Op Ret α σ) : Prop :=
  ∃ i p, cfg.threads i = some p ∧
    (p = .halt ∨ ∃ o k x r s, p = .call o k ∧ m.exec i x o cfg.shared = some (r, s))

namespace LockOrder

variable {m : Machine Op Ret χ σ} (l : LockOrder m κ)

/-- What a thread that holds `L` holds after an operation. -/
def after (o : Op) (L : Finset κ) : Finset κ :=
  match l.wants o with
  | some j => insert j L
  | none => L \ l.frees o

omit [Fintype κ] in
theorem letGo_iff {i i' : Nat} {R : Finset κ} {holder : κ → Option Nat} {j : κ} :
    letGo i R holder j = some i' ↔ holder j = some i' ∧ (i' = i → j ∉ R) := by
  unfold letGo
  split
  · next h =>
    rw [h.1, Option.some.injEq]
    exact iff_of_false nofun fun h' => h'.2 h'.1.symm h.2
  · next h =>
    refine ⟨fun hj => ⟨hj, ?_⟩, And.left⟩
    rintro rfl hR
    exact h ⟨hj, hR⟩

section

variable {l} {i : Nat} {x : χ} {o : Op} {r : Ret o} {s s' : σ}
  (hx : m.exec i x o s = some (r, s'))

include hx

theorem own {L : Finset κ} (hL : ∀ j, l.holder s j = some i ↔ j ∈ L) (j : κ) :
    l.holder s' j = some i ↔ j ∈ l.after o L := by
  unfold after
  cases hj : l.wants o with
  | some j' =>
    rw [(l.taken hx hj).2, Finset.mem_insert, update_apply]
    split
    · next heq => simp [heq]
    · next hne => simp [hne, hL]
  | none =>
    rw [l.freed hx hj, letGo_iff, Finset.mem_sdiff, hL]
    simp

theorem others {i' : Nat} (hi : i' ≠ i) (j : κ) :
    l.holder s j = some i' ↔ l.holder s' j = some i' := by
  cases hj : l.wants o with
  | some j' =>
    obtain ⟨hfree, hs'⟩ := l.taken hx hj
    rw [hs', update_apply]
    split
    · next heq =>
      rw [heq, hfree]
      exact iff_of_false nofun fun h => hi (Option.some.inj h).symm
    · rfl
  | none => simp [l.freed hx hj, letGo_iff, hi]

end

/-- A thread that holds the locks `L` asks for no lock but above those it holds, and `Q` is true of
those it ends with. -/
def Ascends (Q : α → Finset κ → Prop) : Program Op Ret α → Finset κ → Prop
  | .ret a, L => Q a L
  | .halt, _ => True
  | .call o k, L => l.ready o ∧ (∀ j, l.wants o = some j → ∀ j' ∈ L, j' < j) ∧
      ∀ r, Ascends Q (k r) (l.after o L)

variable {l} {L : Finset κ}

theorem Ascends.bind {P : α → Finset κ → Prop} {Q : β → Finset κ → Prop} {p : Program Op Ret α}
    {f : α → Program Op Ret β} (hp : l.Ascends P p L)
    (hf : ∀ a L', P a L' → l.Ascends Q (f a) L') : l.Ascends Q (p >>= f) L := by
  induction p generalizing L with
  | ret a => exact hf a L hp
  | halt => trivial
  | call o k ih => exact ⟨hp.1, hp.2.1, fun r => ih r (hp.2.2 r)⟩

theorem Ascends.then {M : Finset κ} {Q : β → Finset κ → Prop} {p : Program Op Ret α}
    {f : α → Program Op Ret β} (hp : l.Ascends (fun _ L' => L' = M) p L)
    (hf : ∀ a, l.Ascends Q (f a) M) : l.Ascends Q (p >>= f) L :=
  hp.bind fun a _ hL => hL ▸ hf a

theorem Ascends.of_calls {p : Program Op Ret α} (hp : p.Calls fun o =>
    l.ready o ∧ l.wants o = none ∧ l.frees o = ∅) : l.Ascends (fun _ L' => L' = L) p L := by
  induction hp with
  | ret a => rfl
  | halt => trivial
  | call ho _ ih =>
    obtain ⟨hready, hwants, hfrees⟩ := ho
    refine ⟨hready, fun j hj => ?_, fun r => ?_⟩
    · rw [hwants] at hj
      cases hj
    · rw [after, hwants, hfrees, Finset.sdiff_empty]
      exact ih r

/-- What is left of thread `i` ascends from the locks it holds, and it ends with none. -/
def Tidy (l : LockOrder m κ) (i : Nat) (cfg : Config Op Ret α σ) : Prop :=
  ∃ L, (∀ j, l.holder cfg.shared j = some i ↔ j ∈ L) ∧ (cfg.threads i = none → L = ∅) ∧
    ∀ p, cfg.threads i = some p → l.Ascends (fun _ L => L = ∅) p L

variable {cfg start : Config Op Ret α σ} {i : Nat}

theorem Tidy.congr {cfg' : Config Op Ret α σ} (h : l.Tidy i cfg)
    (hthread : cfg'.threads i = cfg.threads i)
    (hholder : ∀ j, l.holder cfg.shared j = some i ↔ l.holder cfg'.shared j = some i) :
    l.Tidy i cfg' := by
  obtain ⟨L, hL, hrest⟩ := h
  refine ⟨L, fun j => (hholder j).symm.trans (hL j), ?_⟩
  rw [hthread]
  exact hrest

theorem Tidy.step (h : l.Tidy i cfg) (j : Nat) (x : χ) : l.Tidy i (m.step j x cfg) := by
  unfold Machine.step
  split
  · next o k hj =>
    split
    · next r s hx =>
      by_cases hij : i = j
      · subst hij
        obtain ⟨L, hL, -, hrest⟩ := h
        refine ⟨l.after o L, own hx hL, ?_⟩
        dsimp only
        rw [update_self]
        refine ⟨nofun, fun p hp => ?_⟩
        cases hp
        exact (hrest _ hj).2.2 r
      · exact h.congr (update_of_ne hij ..) (others hx hij)
    · exact h
  · by_cases hij : i = j
    · subst hij
      refine ⟨∅, fun k => ?_, ?_⟩ <;> dsimp only
      · simp [l.unwound, letGo_iff]
      · rw [update_self]
        exact ⟨fun _ => rfl, nofun⟩
    · exact h.congr (update_of_ne hij ..) fun k => by simp [l.unwound, letGo_iff, hij]
  · exact h

theorem Tidy.reaches {permits : Nat → χ → Op → σ → Prop} (h : l.Tidy i start)
    (hrun : m.Reaches permits start cfg) : l.Tidy i cfg := by
  induction hrun with
  | refl => exact h
  | step _ j x _ ih => exact ih.step j x

theorem Tidy.below (h : l.Tidy i cfg) {o : Op} {k : Ret o → Program Op Ret α}
    (hnext : cfg.threads i = some (.call o k)) {j b : κ} (hj : l.wants o = some j)
    (hheld : l.holder cfg.shared b = some i) : b < j := by
  obtain ⟨L, hL, -, hrest⟩ := h
  exact (hrest _ hnext).2.1 j hj b ((hL b).mp hheld)

theorem Tidy.ready (h : l.Tidy i cfg) {o : Op} {k : Ret o → Program Op Ret α}
    (hnext : cfg.threads i = some (.call o k)) : l.ready o := by
  obtain ⟨L, -, -, hrest⟩ := h
  exact (hrest _ hnext).1

/-- A thread that holds a lock has something left to do. -/
theorem Tidy.busy (h : l.Tidy i cfg) {j : κ} (hheld : l.holder cfg.shared j = some i) :
    cfg.threads i = some .halt ∨ ∃ o k, cfg.threads i = some (.call o k) := by
  obtain ⟨L, hL, hgone, hrest⟩ := h
  have hj : L ≠ ∅ := Finset.ne_empty_of_mem ((hL j).mp hheld)
  cases hp : cfg.threads i with
  | none => exact absurd (hgone hp) hj
  | some p =>
    cases p with
    | ret a => exact absurd (hrest _ hp) hj
    | halt => exact .inl rfl
    | call o k => exact .inr ⟨o, k, rfl⟩

theorem Tidy.goesOn (h : l.Tidy i cfg) {o : Op} {k : Ret o → Program Op Ret α}
    (hnext : cfg.threads i = some (.call o k))
    (hfree : ∀ j, l.wants o = some j → l.holder cfg.shared j = none) : m.GoesOn cfg := by
  obtain ⟨x, r, s, hx⟩ := l.free (i := i) (h.ready hnext) hfree
  exact ⟨i, _, hnext, .inr ⟨o, k, x, r, s, rfl, hx⟩⟩

/-- Whoever waits for a lock waits for a thread that can go on, or that waits for a lock further
up. -/
theorem goesOn_of_waiting (h : ∀ i, l.Tidy i cfg) {o : Op} {k : Ret o → Program Op Ret α}
    (hnext : cfg.threads i = some (.call o k)) {j : κ} (hj : l.wants o = some j) :
    m.GoesOn cfg := by
  induction j using WellFoundedGT.induction generalizing i o with
  | ind j ih =>
    cases hheld : l.holder cfg.shared j with
    | none =>
      refine (h i).goesOn hnext fun j' hj' => ?_
      obtain rfl := Option.some.inj (hj.symm.trans hj')
      exact hheld
    | some i' =>
      obtain hhalt | ⟨o', k', hnext'⟩ := (h i').busy hheld
      · exact ⟨i', _, hhalt, .inl rfl⟩
      · cases hj' : l.wants o' with
        | none => exact (h i').goesOn hnext' fun _ h => nomatch hj'.symm.trans h
        | some j' => exact ih j' ((h i').below hnext' hj' hheld) hnext' hj'

/-- Threads that take their locks in order do not all wait. -/
theorem goesOn (h : ∀ i, l.Tidy i cfg) (hwork : ¬ cfg.Settled) : m.GoesOn cfg := by
  unfold Config.Settled at hwork
  push Not at hwork
  obtain ⟨i, p, hp, hleft⟩ := hwork
  cases p with
  | ret a => exact absurd rfl (hleft a)
  | halt => exact ⟨i, _, hp, .inl rfl⟩
  | call o k =>
    cases hj : l.wants o with
    | some j => exact goesOn_of_waiting h hp hj
    | none => exact (h i).goesOn hp fun _ h => nomatch hj.symm.trans h

end LockOrder

end RocketMem
