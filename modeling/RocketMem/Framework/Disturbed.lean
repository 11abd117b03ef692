import Mathlib.Logic.Relation
import RocketMem.Framework.Program

namespace RocketMem

namespace Program

variable {Op Op' : Type} {Ret : Op → Type} {Ret' : Op' → Type} {α β σ τ : Type}

def expand (f : (o : Op) → Program Op' Ret' (Ret o)) : Program Op Ret α → Program Op' Ret' α
  | ret a => ret a
  | halt => halt
  | call o k => f o >>= fun r => expand f (k r)

theorem run_expand {exec : (o : Op) → σ → Ret o × σ} {exec' : (o : Op') → σ → Ret' o × σ}
    {f : (o : Op) → Program Op' Ret' (Ret o)}
    (hf : ∀ o s, run exec' (f o) s = (some (exec o s).1, (exec o s).2)) (p : Program Op Ret α)
    (s : σ) : run exec' (p.expand f) s = run exec p s := by
  induction p generalizing s with
  | ret a => rfl
  | halt => rfl
  | call o k ih =>
    rw [expand, run_bind_some _ (hf o s), run_call]
    exact ih _ _

variable (exec : (o : Op) → σ → Ret o × σ) (noise : σ → σ → Prop)

/-- A run of a program before, between and after whose operations something else happens to the
state. -/
inductive Disturbed : Program Op Ret α → σ → Option α → σ → Prop
  | noise {p : Program Op Ret α} {s s' t : σ} {r : Option α} (hs : noise s s')
      (hp : Disturbed p s' r t) : Disturbed p s r t
  | ret (a : α) (s : σ) : Disturbed (.ret a) s (some a) s
  | halt (s : σ) : Disturbed .halt s none s
  | call {o : Op} {k : Ret o → Program Op Ret α} {s t : σ} {r : Option α}
      (hk : Disturbed (k (exec o s).1) (exec o s).2 r t) : Disturbed (.call o k) s r t

variable {exec noise}

namespace Disturbed

variable {r : Option α}

theorem of_run (p : Program Op Ret α) (s : σ) :
    Disturbed exec noise p s (run exec p s).1 (run exec p s).2 := by
  induction p generalizing s with
  | ret a => exact .ret a s
  | halt => exact .halt s
  | call o k ih => exact .call (ih _ _)

theorem ret_inv {a : α} {s t : σ} (h : Disturbed exec noise (.ret a) s r t) :
    r = some a ∧ Relation.ReflTransGen noise s t := by
  generalize hp : (Program.ret a : Program Op Ret α) = p at h
  induction h with
  | noise hs _ ih => exact ⟨(ih hp).1, .head hs (ih hp).2⟩
  | ret b s =>
    cases hp
    exact ⟨rfl, .refl⟩
  | halt s => cases hp
  | call _ _ => cases hp

theorem halt_inv {s t : σ}
    (h : Disturbed exec noise (.halt : Program Op Ret α) s r t) :
    r = none ∧ Relation.ReflTransGen noise s t := by
  generalize hp : (Program.halt : Program Op Ret α) = p at h
  induction h with
  | noise hs _ ih => exact ⟨(ih hp).1, .head hs (ih hp).2⟩
  | ret b s => cases hp
  | halt s => exact ⟨rfl, .refl⟩
  | call _ _ => cases hp

theorem call_inv {o : Op} {k : Ret o → Program Op Ret α} {s t : σ}
    (h : Disturbed exec noise (.call o k) s r t) :
    ∃ s', Relation.ReflTransGen noise s s' ∧
      Disturbed exec noise (k (exec o s').1) (exec o s').2 r t := by
  generalize hp : (Program.call o k : Program Op Ret α) = p at h
  induction h with
  | noise hs _ ih =>
    obtain ⟨s', hs', hk⟩ := ih hp
    exact ⟨s', .head hs hs', hk⟩
  | ret b s => cases hp
  | halt s => cases hp
  | call hk _ =>
    cases hp
    exact ⟨_, .refl, hk⟩

theorem of_bind {p : Program Op Ret α} {f : α → Program Op Ret β} {s t : σ} {r : Option β}
    (h : Disturbed exec noise (p >>= f) s r t) :
    (∃ a s', Disturbed exec noise p s (some a) s' ∧ Disturbed exec noise (f a) s' r t) ∨
      Disturbed exec noise p s none t ∧ r = none := by
  generalize hq : p >>= f = q at h
  induction h generalizing p with
  | noise hs _ ih =>
    rcases ih hq with ⟨a, s', hp, hf⟩ | ⟨hp, hr⟩
    · exact .inl ⟨a, s', .noise hs hp, hf⟩
    · exact .inr ⟨.noise hs hp, hr⟩
  | ret b s =>
    cases p with
    | ret a =>
      have hfa : f a = .ret b := hq
      exact .inl ⟨a, s, .ret a s, hfa ▸ .ret b s⟩
    | halt => cases hq
    | call o k => cases hq
  | halt s =>
    cases p with
    | ret a =>
      have hfa : f a = .halt := hq
      exact .inl ⟨a, s, .ret a s, hfa ▸ .halt s⟩
    | halt => exact .inr ⟨.halt s, rfl⟩
    | call o k => cases hq
  | @call o k s t r hk ih =>
    cases p with
    | ret a =>
      have hfa : f a = .call o k := hq
      exact .inl ⟨a, s, .ret a s, hfa ▸ .call hk⟩
    | halt => cases hq
    | call o' k' =>
      cases hq
      rcases ih rfl with ⟨a, s', hp, hf⟩ | ⟨hp, hr⟩
      · exact .inl ⟨a, s', .call hp, hf⟩
      · exact .inr ⟨.call hp, hr⟩

theorem unseen {R : σ → τ → Prop} (hnoise : ∀ s s' t, noise s s' → R s t → R s' t) {s s' : σ}
    {t : τ} (hs : Relation.ReflTransGen noise s s') (hst : R s t) : R s' t := by
  induction hs with
  | refl => exact hst
  | tail _ hlast ih => exact hnoise _ _ _ hlast ih

/-- If what happens in between is not seen, nor what it does to the programs that stand for the
operations, then a disturbed run of these is a run of the operations. -/
theorem simulates {P : Op' → Prop} {p : Program Op' Ret' α} (hp : p.Calls P)
    {exec' : (o : Op') → τ → Ret' o × τ} {f : (o : Op') → Program Op Ret (Ret' o)}
    {R : σ → τ → Prop} (hnoise : ∀ s s' t, noise s s' → R s t → R s' t)
    (hf : ∀ o, P o → ∀ s t r s', R s t → Disturbed exec noise (f o) s r s' →
      r = some (exec' o t).1 ∧ R s' (exec' o t).2)
    {s s' : σ} {t : τ} (hst : R s t)
    (h : Disturbed exec noise (p.expand f) s r s') :
    r = (run exec' p t).1 ∧ R s' (run exec' p t).2 := by
  induction hp generalizing s t with
  | ret a =>
    obtain ⟨hr, hs⟩ := ret_inv h
    exact ⟨hr, unseen hnoise hs hst⟩
  | halt =>
    obtain ⟨hr, hs⟩ := halt_inv h
    exact ⟨hr, unseen hnoise hs hst⟩
  | @call o k ho _ ih =>
    rcases of_bind h with ⟨a, s₁, ha, hrest⟩ | ⟨hnone, -⟩
    · obtain ⟨heq, hst₁⟩ := hf o ho s t _ s₁ hst ha
      cases heq
      exact ih _ hst₁ hrest
    · obtain ⟨heq, -⟩ := hf o ho s t _ s' hst hnone
      cases heq

end Disturbed

end Program

end RocketMem
