import Mathlib.Logic.Function.Basic
import RocketMem.Framework.Program

namespace RocketMem

open Function Program

/-- Threads that run programs over one signature against a shared state. `exec` is what an
operation of a thread does under the circumstances `x`, and `none` while the operation has to
wait; `unwind` is what remains of the state when the thread panics. -/
structure Machine (Op : Type) (Ret : Op → Type) (χ σ : Type) where
  exec : Nat → χ → (o : Op) → σ → Option (Ret o × σ)
  unwind : Nat → σ → σ

/-- The shared state and what is left to run of every thread. A thread that has panicked is gone. -/
structure Config (Op : Type) (Ret : Op → Type) (α σ : Type) where
  shared : σ
  threads : Nat → Option (Program Op Ret α)

def Config.Settled {Op : Type} {Ret : Op → Type} {α σ : Type} (cfg : Config Op Ret α σ) : Prop :=
  ∀ i p, cfg.threads i = some p → ∃ a, p = .ret a

namespace Machine

variable {Op : Type} {Ret : Op → Type} {χ σ α β : Type} (m : Machine Op Ret χ σ)

/-- The scheduler picks a thread; one that waits or has returned does nothing. -/
def step (i : Nat) (x : χ) (cfg : Config Op Ret α σ) : Config Op Ret α σ :=
  match cfg.threads i with
  | some (.call o k) =>
    match m.exec i x o cfg.shared with
    | some (r, s) => ⟨s, update cfg.threads i (some (k r))⟩
    | none => cfg
  | some .halt => ⟨m.unwind i cfg.shared, update cfg.threads i none⟩
  | _ => cfg

/-- The configurations that schedules reach whose every step is permitted where it is taken. -/
inductive Reaches (permits : Nat → χ → Op → σ → Prop) (start : Config Op Ret α σ) :
    Config Op Ret α σ → Prop
  | refl : Reaches permits start start
  | step {cfg : Config Op Ret α σ} (h : Reaches permits start cfg) (i : Nat) (x : χ)
      (hp : ∀ o k, cfg.threads i = some (.call o k) → permits i x o cfg.shared) :
      Reaches permits start (m.step i x cfg)

section

variable {m} {permits : Nat → χ → Op → σ → Prop} {start cfg : Config Op Ret α σ}

theorem Reaches.threads_eq_none (h : m.Reaches permits start cfg) {i : Nat}
    (hi : start.threads i = none) : cfg.threads i = none := by
  induction h with
  | refl => exact hi
  | @step cfg _ j x hp ih =>
    have hkept {p : Program Op Ret α} {next : Option (Program Op Ret α)}
        (hj : cfg.threads j = some p) : update cfg.threads j next i = none := by
      have hne : i ≠ j := by
        rintro rfl
        rw [ih] at hj
        cases hj
      rw [update_of_ne hne]
      exact ih
    unfold Machine.step
    split
    · next hj =>
      split
      · exact hkept hj
      · exact ih
    · next hj => exact hkept hj
    · exact ih

theorem Reaches.invariant {I : σ → Prop} (hstart : I start.shared)
    (hexec : ∀ i x o r s s', start.threads i ≠ none → permits i x o s →
      m.exec i x o s = some (r, s') → I s → I s')
    (hunwind : ∀ i s, I s → I (m.unwind i s)) (h : m.Reaches permits start cfg) : I cfg.shared := by
  induction h with
  | refl => exact hstart
  | @step cfg hreach i x hp ih =>
    unfold Machine.step
    split
    · next o k hi =>
      split
      · next r s hx =>
        refine hexec i x o r _ _ (fun hnone => ?_) (hp o k hi) hx ih
        rw [hreach.threads_eq_none hnone] at hi
        cases hi
      · exact ih
    · exact hunwind i _ ih
    · exact ih

end

section

variable {m} {permits : Nat → χ → Op → σ → Prop} {i : Nat} {permits' : Nat → χ → Op → σ → Prop} {p q : Program Op Ret α}

inductive Runs (m : Machine Op Ret χ σ) (permits : Nat → χ → Op → σ → Prop) (i : Nat) :
    Program Op Ret α → σ → Program Op Ret α → σ → Prop
  | refl (p : Program Op Ret α) (s : σ) : Runs m permits i p s p s
  | call {o : Op} {k : Ret o → Program Op Ret α} {s s' s'' : σ} {r : Ret o}
      {q : Program Op Ret α} (x : χ) (hp : permits i x o s) (hx : m.exec i x o s = some (r, s'))
      (hk : Runs m permits i (k r) s' q s'') : Runs m permits i (.call o k) s q s''

theorem Runs.perform {o : Op} {s s' : σ} {r : Ret o} (x : χ) (hp : permits i x o s)
    (hx : m.exec i x o s = some (r, s')) : Runs m permits i (perform o) s (.ret r) s' :=
  .call x hp hx (.refl _ _)

theorem Runs.bind {p : Program Op Ret α} {f : α → Program Op Ret β} {a : α} {s s' s'' : σ}
    {q : Program Op Ret β} (hp : Runs m permits i p s (.ret a) s')
    (hf : Runs m permits i (f a) s' q s'') : Runs m permits i (p >>= f) s q s'' := by
  generalize hend : (ret a : Program Op Ret α) = e at hp
  induction hp with
  | refl p s =>
    subst hend
    exact hf
  | call x hpx hx _ ih => exact .call x hpx hx (ih hf hend)

theorem Runs.within {s s' : σ} (f : α → Program Op Ret β)
    (hp : Runs m permits i p s q s') : Runs m permits i (p >>= f) s (q >>= f) s' := by
  induction hp with
  | refl p s => exact .refl _ s
  | call x hpx hx _ ih => exact .call x hpx hx ih

theorem Runs.trans {p q r : Program Op Ret α} {s s' s'' : σ} (hp : Runs m permits i p s q s')
    (hq : Runs m permits i q s' r s'') : Runs m permits i p s r s'' := by
  induction hp with
  | refl p s => exact hq
  | call x hpx hx _ ih => exact .call x hpx hx (ih hq)

theorem Runs.forM {f : β → Program Op Ret Unit} {I : σ → Prop}
    (h : ∀ b s, I s → ∃ s', Runs m permits i (f b) s (.ret ()) s' ∧ I s') (bs : List β) {s : σ}
    (hs : I s) : ∃ s', Runs m permits i (bs.forM f) s (.ret ()) s' ∧ I s' := by
  induction bs generalizing s with
  | nil => exact ⟨s, .refl _ _, hs⟩
  | cons b bs ih =>
    obtain ⟨s₁, hb, hs₁⟩ := h b s hs
    obtain ⟨s₂, hbs, hs₂⟩ := ih hs₁
    exact ⟨s₂, hb.bind hbs, hs₂⟩

theorem Reaches.runs {start cfg : Config Op Ret α σ} (h : m.Reaches permits start cfg)
    {s : σ} (hi : cfg.threads i = some p)
    (hrun : Runs m permits i p cfg.shared q s) :
    m.Reaches permits start ⟨s, update cfg.threads i (some q)⟩ := by
  generalize hs : cfg.shared = s₀ at hrun
  induction hrun generalizing cfg with
  | refl p s =>
    have hsame : update cfg.threads i (some p) = cfg.threads := by
      rw [← hi, update_eq_self]
    rw [hsame, ← hs]
    exact h
  | @call o k s s' s'' r q x hp hx _ ih =>
    subst hs
    have hstep := h.step i x fun o' k' hk' => by
      rw [hi] at hk'
      cases hk'
      exact hp
    have hnext : m.step i x cfg = ⟨s', update cfg.threads i (some (k r))⟩ := by
      simp only [Machine.step, hi, hx]
    rw [hnext] at hstep
    have hend := ih hstep (update_self i (some (k r)) cfg.threads) rfl
    rwa [update_idem] at hend

theorem Reaches.mono {start cfg : Config Op Ret α σ}
    (hp : ∀ i x o s, permits i x o s → permits' i x o s) (h : m.Reaches permits start cfg) :
    m.Reaches permits' start cfg := by
  induction h with
  | refl => exact .refl
  | step _ i x hpx ih => exact ih.step i x fun o k hk => hp i x o _ (hpx o k hk)

theorem Runs.mono {s s' : σ}
    (hp : ∀ x o s, permits i x o s → permits' i x o s) (h : Runs m permits i p s q s') :
    Runs m permits' i p s q s' := by
  induction h with
  | refl p s => exact .refl p s
  | call x hx hexec _ ih => exact .call x (hp x _ _ hx) hexec ih

theorem Runs.permitted {ok : Op → Prop} {I : σ → Prop}
    (hI : ∀ o, ok o → ∀ x r s s', m.exec i x o s = some (r, s') → I s → I s')
    (hpermits : ∀ o, ok o → ∀ x s, permits i x o s → I s → permits' i x o s)
    {s s' : σ} (hp : p.Calls ok) (h : Runs m permits i p s q s')
    (hs : I s) : Runs m permits' i p s q s' := by
  induction h with
  | refl p s => exact .refl p s
  | call x hx hexec _ ih =>
    cases hp with
    | call ho hk =>
      exact .call x (hpermits _ ho x _ hx hs) hexec (ih (hk _) (hI _ ho x _ _ _ hexec hs))

end

variable {m} {rely : σ → σ → Prop} {i : Nat}

inductive RunsAmid (m : Machine Op Ret χ σ) (rely : σ → σ → Prop) (i : Nat) :
    Program Op Ret α → σ → Program Op Ret α → σ → Prop
  | refl (p : Program Op Ret α) (s : σ) : RunsAmid m rely i p s p s
  | others {p q : Program Op Ret α} {s s' s'' : σ} (hs : rely s s')
      (hp : RunsAmid m rely i p s' q s'') : RunsAmid m rely i p s q s''
  | call {o : Op} {k : Ret o → Program Op Ret α} {s s' s'' : σ} {r : Ret o}
      {q : Program Op Ret α} (x : χ) (hx : m.exec i x o s = some (r, s'))
      (hk : RunsAmid m rely i (k r) s' q s'') : RunsAmid m rely i (.call o k) s q s''

theorem Runs.amid {permits : Nat → χ → Op → σ → Prop} {p q : Program Op Ret α} {s s' : σ}
    (h : Runs m permits i p s q s') : RunsAmid m rely i p s q s' := by
  induction h with
  | refl p s => exact .refl p s
  | call x _ hx _ ih => exact .call x hx ih

namespace RunsAmid

theorem bind_ret {p : Program Op Ret α} {f : α → Program Op Ret β} {b : β} {s s' : σ}
    (h : RunsAmid m rely i (p >>= f) s (.ret b) s') :
    ∃ a s₁, RunsAmid m rely i p s (.ret a) s₁ ∧ RunsAmid m rely i (f a) s₁ (.ret b) s' := by
  generalize hq : (p >>= f) = q at h
  generalize hb : (ret b : Program Op Ret β) = e at h
  induction h generalizing p with
  | refl q s =>
    subst hb
    cases p with
    | ret a => exact ⟨a, s, .refl _ _, by rw [← ret_bind a f, hq]; exact .refl _ _⟩
    | halt => cases hq
    | call o k => cases hq
  | others hs _ ih =>
    obtain ⟨a, s₁, hp, hf⟩ := ih hq hb
    exact ⟨a, s₁, .others hs hp, hf⟩
  | @call o k s s₂ s₃ r q x hx hk ih =>
    cases p with
    | ret a =>
      refine ⟨a, s, .refl _ _, ?_⟩
      rw [← ret_bind a f, hq]
      subst hb
      exact .call x hx hk
    | halt => cases hq
    | call o' k' =>
      rw [call_bind] at hq
      cases hq
      obtain ⟨a, s₁, hp, hf⟩ := ih rfl hb
      exact ⟨a, s₁, .call x hx hp, hf⟩

theorem invariant {ok : Op → Prop} {I : σ → Prop} (hrely : ∀ s s', rely s s' → I s → I s')
    (hexec : ∀ o, ok o → ∀ x r s s', m.exec i x o s = some (r, s') → I s → I s')
    {p q : Program Op Ret α} {s s' : σ} (hp : p.Calls ok) (h : RunsAmid m rely i p s q s')
    (hs : I s) : I s' := by
  induction h with
  | refl p s => exact hs
  | others hstep _ ih => exact ih hp (hrely _ _ hstep hs)
  | call x hx _ ih =>
    cases hp with
    | call ho hk => exact ih (hk _) (hexec _ ho x _ _ _ hx hs)

theorem ret_eq {a b : α} {s s' : σ} (h : RunsAmid m rely i (.ret a) s (.ret b) s') : a = b := by
  generalize ha : (ret a : Program Op Ret α) = p at h
  generalize hb : (ret b : Program Op Ret α) = q at h
  induction h with
  | refl p s =>
    subst ha
    exact (ret.inj hb).symm
  | others _ _ ih => exact ih ha hb
  | call => cases ha

theorem perform {I J : σ → Prop} (hI : ∀ s s', rely s s' → I s → I s')
    (hJ : ∀ s s', rely s s' → J s → J s') {o : Op} {r : Ret o}
    (hexec : ∀ x s s', m.exec i x o s = some (r, s') → I s → J s') {s s' : σ}
    (h : RunsAmid m rely i (Program.perform o) s (.ret r) s') (hs : I s) : J s' := by
  generalize hp : (Program.perform o : Program Op Ret (Ret o)) = p at h
  generalize hr : (Program.ret r : Program Op Ret (Ret o)) = q at h
  induction h with
  | refl p s =>
    subst hp
    cases hr
  | others hstep _ ih => exact ih (hI _ _ hstep hs) hp hr
  | @call o' k s s₁ s₂ r' q x hx hk ih =>
    cases hp
    subst hr
    have hret := ret_eq hk
    subst hret
    have hcalls : Program.Calls (fun _ : Op => False) (.ret r' : Program Op Ret (Ret o)) := .ret r'
    exact invariant hJ (fun _ ho => ho.elim) hcalls hk (hexec x _ _ hx hs)

end RunsAmid

end Machine

/-- What the threads of a machine agree on: an invariant of the shared state, what each thread may
rely on while the others run, what a thread has to make sure of before an operation, and what holds
of a thread that is not there. -/
structure Discipline (Op σ : Type) where
  inv : σ → Prop
  rely : Nat → σ → σ → Prop
  asserts : Nat → Op → σ → Prop
  absent : Nat → σ → Prop
  rely_refl : ∀ i s, rely i s s
  rely_trans : ∀ {i s s' s''}, rely i s s' → rely i s' s'' → rely i s s''
  absent_stable : ∀ {i s s'}, rely i s s' → inv s' → absent i s → absent i s'

namespace Discipline

variable {Op : Type} {Ret : Op → Type} {χ σ α β : Type} (d : Discipline Op σ)

def Keeps (i : Nat) (s s' : σ) : Prop := d.inv s' ∧ ∀ j, j ≠ i → d.rely j s s'

/-- A fact about the shared state that the other threads do not take from thread `i`. -/
def Stable (i : Nat) (P : σ → Prop) : Prop := ∀ s s', d.rely i s s' → d.inv s' → P s → P s'

variable (m : Machine Op Ret χ σ) (permits : Nat → χ → Op → σ → Prop) (i : Nat)

/-- Thread `i` can run the program from `s` on: whenever it is scheduled, after whatever the others
have done, it keeps to the discipline, and it ends in `Q`. -/
def Holds (Q : α → σ → Prop) : Program Op Ret α → σ → Prop
  | .ret a, s => ∀ s', d.rely i s s' → d.inv s' → Q a s'
  | .halt, s => ∀ s', d.rely i s s' → d.inv s' →
      d.Keeps i s' (m.unwind i s') ∧ d.absent i (m.unwind i s')
  | .call o k, s => ∀ s', d.rely i s s' → d.inv s' → d.asserts i o s' ∧
      ∀ x r s'', permits i x o s' → m.exec i x o s' = some (r, s'') →
        d.Keeps i s' s'' ∧ Holds Q (k r) s''

/-- From every state in `P`, the program keeps to the discipline and ends in `Q`. -/
def Triple (P : σ → Prop) (p : Program Op Ret α) (Q : α → σ → Prop) : Prop :=
  ∀ s, P s → d.Holds m permits i Q p s

variable {d m permits i} {P P' : σ → Prop} {Q Q' : α → σ → Prop} {p : Program Op Ret α}

theorem Holds.stable {s s' : σ} (h : d.Holds m permits i Q p s)
    (hs : d.rely i s s') : d.Holds m permits i Q p s' := by
  cases p <;> exact fun s'' hs'' => h s'' (d.rely_trans hs hs'')

theorem Holds.of_later {s : σ}
    (h : ∀ s', d.rely i s s' → d.inv s' → d.Holds m permits i Q p s') :
    d.Holds m permits i Q p s := by
  cases p <;> exact fun s' hs' hinv => h s' hs' hinv s' (d.rely_refl i s') hinv

theorem Holds.bind {f : α → Program Op Ret β} {R : β → σ → Prop} {s : σ}
    (h : d.Holds m permits i (fun a => d.Holds m permits i R (f a)) p s) :
    d.Holds m permits i R (p >>= f) s := by
  induction p generalizing s with
  | ret a => exact Holds.of_later h
  | halt => exact h
  | call o k ih =>
    intro s' hs' hinv
    obtain ⟨hassert, hstep⟩ := h s' hs' hinv
    exact ⟨hassert, fun x r s'' hx hr => ⟨(hstep x r s'' hx hr).1, ih r (hstep x r s'' hx hr).2⟩⟩

theorem Holds.mono {s : σ} (hQ : ∀ a s, d.inv s → Q a s → Q' a s)
    (h : d.Holds m permits i Q p s) : d.Holds m permits i Q' p s := by
  induction p generalizing s with
  | ret a => exact fun s' hs' hinv => hQ a s' hinv (h s' hs' hinv)
  | halt => exact h
  | call o k ih =>
    intro s' hs' hinv
    obtain ⟨hassert, hstep⟩ := h s' hs' hinv
    exact ⟨hassert, fun x r s'' hx hr => ⟨(hstep x r s'' hx hr).1, ih r (hstep x r s'' hx hr).2⟩⟩

namespace Triple

variable {p : Program Op Ret α}

theorem bind {f : α → Program Op Ret β} {R : β → σ → Prop}
    (hp : d.Triple m permits i P p Q) (hf : ∀ a, d.Triple m permits i (Q a) (f a) R) :
    d.Triple m permits i P (p >>= f) R :=
  fun s hs => Holds.bind ((hp s hs).mono fun a s' _ => hf a s')

theorem conseq (h : d.Triple m permits i P p Q)
    (hP : ∀ s, P' s → P s) (hQ : ∀ a s, d.inv s → Q a s → Q' a s) : d.Triple m permits i P' p Q' :=
  fun s hs => (h s (hP s hs)).mono hQ

theorem pre (h : d.Triple m permits i P p Q) (hP : ∀ s, P' s → P s) : d.Triple m permits i P' p Q :=
  fun s hs => h s (hP s hs)

theorem ret {a : α} (hP : d.Stable i P) (hQ : ∀ s, d.inv s → P s → Q a s) :
    d.Triple m permits i P (.ret a) Q :=
  fun s hs s' hs' hinv => hQ s' hinv (hP s s' hs' hinv hs)

theorem halt (hP : d.Stable i P)
    (hunwind : ∀ s, d.inv s → P s → d.Keeps i s (m.unwind i s) ∧ d.absent i (m.unwind i s)) :
    d.Triple m permits i P (.halt : Program Op Ret α) Q :=
  fun s hs s' hs' hinv => hunwind s' hinv (hP s s' hs' hinv hs)

theorem perform {o : Op} {Q : Ret o → σ → Prop} (hP : d.Stable i P) (hQ : ∀ r, d.Stable i (Q r))
    (hassert : ∀ s, d.inv s → P s → d.asserts i o s)
    (hstep : ∀ s, d.inv s → P s → ∀ x r s', permits i x o s → m.exec i x o s = some (r, s') →
      d.Keeps i s s' ∧ Q r s') :
    d.Triple m permits i P (perform o) Q := by
  intro s hs s' hs' hinv
  have hnow := hP s s' hs' hinv hs
  refine ⟨hassert s' hinv hnow, fun x r s'' hx hr => ?_⟩
  obtain ⟨hkeeps, hpost⟩ := hstep s' hinv hnow x r s'' hx hr
  exact ⟨hkeeps, fun s₃ hs₃ hinv₃ => hQ r s'' s₃ hs₃ hinv₃ hpost⟩

theorem of_calls {ok : Op → Prop} (hp : p.Calls ok) (hP : d.Stable i P)
    (hunwind : ∀ s, d.inv s → P s → d.Keeps i s (m.unwind i s) ∧ d.absent i (m.unwind i s))
    (hassert : ∀ o, ok o → ∀ s, d.inv s → P s → d.asserts i o s)
    (hstep : ∀ o, ok o → ∀ s, d.inv s → P s → ∀ x r s', permits i x o s →
      m.exec i x o s = some (r, s') → d.Keeps i s s' ∧ P s') :
    d.Triple m permits i P p fun _ => P := by
  induction hp with
  | ret a => exact .ret hP fun s _ hs => hs
  | halt => exact .halt hP hunwind
  | @call o k ho _ ih =>
    intro s hs s' hs' hinv
    have hnow := hP s s' hs' hinv hs
    refine ⟨hassert o ho s' hinv hnow, fun x r s'' hx hr => ?_⟩
    obtain ⟨hkeeps, hpost⟩ := hstep o ho s' hinv hnow x r s'' hx hr
    exact ⟨hkeeps, ih r s'' hpost⟩

end Triple

variable {Q : Nat → α → σ → Prop} {start cfg : Config Op Ret α σ}

structure Sustains (d : Discipline Op σ) (m : Machine Op Ret χ σ)
    (permits : Nat → χ → Op → σ → Prop) (Q : Nat → α → σ → Prop) (cfg : Config Op Ret α σ) :
    Prop where
  inv : d.inv cfg.shared
  threads : ∀ i p, cfg.threads i = some p → d.Holds m permits i (Q i) p cfg.shared
  absent : ∀ i, cfg.threads i = none → d.absent i cfg.shared

/-- What one thread's move does to a configuration that goes on: the mover is described on its own,
the others rely on its having kept to the discipline. -/
theorem Sustains.move (h : d.Sustains m permits Q cfg) {i : Nat} {s : σ}
    {next : Option (Program Op Ret α)} (hkeeps : d.Keeps i cfg.shared s)
    (hsome : ∀ p, next = some p → d.Holds m permits i (Q i) p s)
    (hnone : next = none → d.absent i s) :
    d.Sustains m permits Q ⟨s, update cfg.threads i next⟩ := by
  refine ⟨hkeeps.1, fun j p hj => ?_, fun j hj => ?_⟩
  · by_cases hji : j = i
    · subst hji
      exact hsome p ((update_self j next cfg.threads).symm.trans hj)
    · have hold : cfg.threads j = some p := (update_of_ne hji _ _).symm.trans hj
      exact (h.threads j p hold).stable (hkeeps.2 j hji)
  · by_cases hji : j = i
    · subst hji
      exact hnone ((update_self j next cfg.threads).symm.trans hj)
    · have hold : cfg.threads j = none := (update_of_ne hji _ _).symm.trans hj
      exact d.absent_stable (hkeeps.2 j hji) hkeeps.1 (h.absent j hold)

theorem Sustains.step (h : d.Sustains m permits Q cfg) (i : Nat) (x : χ)
    (hp : ∀ o k, cfg.threads i = some (.call o k) → permits i x o cfg.shared) :
    d.Sustains m permits Q (m.step i x cfg) := by
  unfold Machine.step
  split
  · next o k hi =>
    split
    · next r s hexec =>
      obtain ⟨-, hstep⟩ := h.threads i _ hi cfg.shared (d.rely_refl i _) h.inv
      obtain ⟨hkeeps, hnext⟩ := hstep x r s (hp o k hi) hexec
      refine h.move hkeeps (fun p hp => ?_) nofun
      obtain rfl := Option.some.inj hp
      exact hnext
    · exact h
  · next hi =>
    obtain ⟨hkeeps, habsent⟩ := h.threads i _ hi cfg.shared (d.rely_refl i _) h.inv
    exact h.move hkeeps nofun fun _ => habsent
  · exact h

theorem sound (hstart : d.Sustains m permits Q start) (h : m.Reaches permits start cfg) :
    d.Sustains m permits Q cfg := by
  induction h with
  | refl => exact hstart
  | step _ i x hp ih => exact ih.step i x hp

theorem Sustains.ret (h : d.Sustains m permits Q cfg) {i : Nat} {a : α}
    (hi : cfg.threads i = some (.ret a)) : Q i a cfg.shared :=
  h.threads i _ hi cfg.shared (d.rely_refl i _) h.inv

theorem reaches_asserts (hstart : d.Sustains m permits Q start) (h : m.Reaches permits start cfg) :
    m.Reaches (fun i x o s => permits i x o s ∧ d.asserts i o s) start cfg := by
  induction h with
  | refl => exact .refl
  | step hreach i x hp ih =>
    have hnow := sound hstart hreach
    refine ih.step i x fun o k hi => ⟨hp o k hi, ?_⟩
    exact (hnow.threads i _ hi _ (d.rely_refl i _) hnow.inv).1

end Discipline

end RocketMem
