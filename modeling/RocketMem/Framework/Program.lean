import Mathlib.Logic.Basic
import Mathlib.Control.Lawful

namespace RocketMem

/-- A program over a signature of operations: it returns, stops on a panic, or
performs one operation and goes on with the operation's result. -/
inductive Program (Op : Type) (Ret : Op → Type) (α : Type) : Type where
  | ret (a : α)
  | halt
  | call (o : Op) (k : Ret o → Program Op Ret α)

namespace Program

variable {Op : Type} {Ret : Op → Type} {α β σ τ : Type} {p : Program Op Ret α} {P : Op → Prop}

def bind : Program Op Ret α → (α → Program Op Ret β) → Program Op Ret β
  | ret a, f => f a
  | halt, _ => halt
  | call o k, f => call o fun r => bind (k r) f

instance : Monad (Program Op Ret) where
  pure := ret
  bind := bind

def perform (o : Op) : Program Op Ret (Ret o) := call o ret

@[simp] theorem pure_eq (a : α) : (pure a : Program Op Ret α) = ret a := rfl

@[simp] theorem ret_bind (a : α) (f : α → Program Op Ret β) : (ret a >>= f) = f a := rfl

@[simp] theorem halt_bind (f : α → Program Op Ret β) : (halt >>= f) = halt := rfl

@[simp] theorem call_bind (o : Op) (k : Ret o → Program Op Ret α) (f : α → Program Op Ret β) :
    (call o k >>= f) = call o fun r => k r >>= f := rfl

@[simp] theorem perform_bind (o : Op) (f : Ret o → Program Op Ret β) :
    (perform o >>= f) = call o f := rfl

theorem bind_ret (p : Program Op Ret α) : p >>= ret = p := by
  induction p with
  | ret a => rfl
  | halt => rfl
  | call o k ih => simp only [call_bind, ih]

theorem bind_assoc {γ : Type} (p : Program Op Ret α) (f : α → Program Op Ret β)
    (g : β → Program Op Ret γ) : (p >>= f) >>= g = p >>= fun a => f a >>= g := by
  induction p with
  | ret a => rfl
  | halt => rfl
  | call o k ih => simp only [call_bind, ih]

instance : LawfulMonad (Program Op Ret) := LawfulMonad.mk' _ bind_ret (fun _ _ => rfl) bind_assoc

/-- Run a program against a state. A panic keeps the state reached so far and has no result. -/
def run (exec : (o : Op) → σ → Ret o × σ) : Program Op Ret α → σ → Option α × σ
  | ret a, s => (some a, s)
  | halt, s => (none, s)
  | call o k, s => run exec (k (exec o s).1) (exec o s).2

section

variable (exec : (o : Op) → σ → Ret o × σ)

@[simp] theorem run_ret (a : α) (s : σ) : run exec (ret a) s = (some a, s) := rfl

@[simp] theorem run_halt (s : σ) : run exec (halt : Program Op Ret α) s = (none, s) := rfl

@[simp] theorem run_call (o : Op) (k : Ret o → Program Op Ret α) (s : σ) :
    run exec (call o k) s = run exec (k (exec o s).1) (exec o s).2 := rfl

theorem run_bind (p : Program Op Ret α) (f : α → Program Op Ret β) (s : σ) :
    run exec (p >>= f) s =
      match run exec p s with
      | (some a, s') => run exec (f a) s'
      | (none, s') => (none, s') := by
  induction p generalizing s with
  | ret a => rfl
  | halt => rfl
  | call o k ih => simp only [call_bind, run_call, ih]

theorem run_bind_some {p : Program Op Ret α} {s s' : σ} {a : α}
    (h : run exec p s = (some a, s')) (f : α → Program Op Ret β) :
    run exec (p >>= f) s = run exec (f a) s' := by
  rw [run_bind, h]

theorem run_map (f : α → β) (p : Program Op Ret α) (s : σ) :
    run exec (f <$> p) s = ((run exec p s).1.map f, (run exec p s).2) := by
  rw [← bind_pure_comp, run_bind]
  obtain ⟨r, t⟩ := run exec p s
  cases r <;> rfl

end

inductive Calls (P : Op → Prop) : Program Op Ret α → Prop where
  | ret (a : α) : Calls P (ret a)
  | halt : Calls P halt
  | call {o : Op} {k : Ret o → Program Op Ret α} (ho : P o) (hk : ∀ r, Calls P (k r)) :
      Calls P (call o k)

namespace Calls

variable {P Q : Op → Prop} {p : Program Op Ret α}

theorem perform {o : Op} (h : P o) : Calls P (perform o : Program Op Ret (Ret o)) :=
  .call h fun r => .ret r

theorem bind {f : α → Program Op Ret β}
    (hp : Calls P p) (hf : ∀ a, Calls P (f a)) : Calls P (p >>= f) := by
  induction hp with
  | ret a => exact hf a
  | halt => exact .halt
  | call ho _ ih => exact .call ho ih

theorem mono (h : ∀ o, P o → Q o) (hp : Calls P p) : Calls Q p := by
  induction hp with
  | ret a => exact .ret a
  | halt => exact .halt
  | call ho _ ih => exact .call (h _ ho) ih

theorem map (hp : Calls P p) (f : α → β) : Calls P (f <$> p) := bind hp fun a => .ret (f a)

end Calls

inductive Beside (P : Op → Prop) (aside : Program Op Ret Unit) : Program Op Ret α → Prop where
  | ret (a : α) : Beside P aside (ret a)
  | halt : Beside P aside halt
  | call {o : Op} {k : Ret o → Program Op Ret α} (ho : P o) (hk : ∀ r, Beside P aside (k r)) :
      Beside P aside (call o k)
  | aside {f : Unit → Program Op Ret α} (hf : Beside P aside (f ())) : Beside P aside (aside >>= f)

theorem Calls.beside (hp : Calls P p)
    (aside : Program Op Ret Unit) : Beside P aside p := by
  induction hp with
  | ret a => exact .ret a
  | halt => exact .halt
  | call ho _ ih => exact .call ho ih

namespace Beside

variable {P Q : Op → Prop} {aside : Program Op Ret Unit}

theorem calls {p : Program Op Ret α} (hp : Beside P aside p) (h : ∀ o, P o → Q o)
    (haside : Calls Q aside) : Calls Q p := by
  induction hp with
  | ret a => exact .ret a
  | halt => exact .halt
  | call ho _ ih => exact .call (h _ ho) ih
  | aside _ ih => exact haside.bind fun _ => ih

end Beside

/-- Besides runs of the program `aside`, every operation the program can perform satisfies `P` as
long as the operations before it have returned what `R` says they return. -/
inductive Under (R : (o : Op) → Ret o → Prop) (P : Op → Prop) (aside : Program Op Ret Unit) :
    Program Op Ret α → Prop where
  | ret (a : α) : Under R P aside (ret a)
  | halt : Under R P aside halt
  | call {o : Op} {k : Ret o → Program Op Ret α} (ho : P o)
      (hk : ∀ r, R o r → Under R P aside (k r)) : Under R P aside (call o k)
  | aside {f : Unit → Program Op Ret α} (hf : Under R P aside (f ())) :
      Under R P aside (aside >>= f)

theorem Calls.under (hp : Calls P p)
    (R : (o : Op) → Ret o → Prop) (aside : Program Op Ret Unit) : Under R P aside p := by
  induction hp with
  | ret a => exact .ret a
  | halt => exact .halt
  | call ho _ ih => exact .call ho fun r _ => ih r

namespace Under

variable {R : (o : Op) → Ret o → Prop} {P Q : Op → Prop} {aside : Program Op Ret Unit} {p : Program Op Ret α}

theorem bind {f : α → Program Op Ret β} (hp : Under R P aside p)
    (hf : ∀ a, Under R P aside (f a)) : Under R P aside (p >>= f) := by
  induction hp with
  | ret a => exact hf a
  | halt => exact .halt
  | call ho _ ih => exact .call ho ih
  | aside _ ih =>
    rw [bind_assoc]
    exact .aside ih

theorem map (hp : Under R P aside p) (f : α → β) : Under R P aside (f <$> p) :=
  bind hp fun a => .ret (f a)

theorem mono (h : ∀ o, P o → Q o) (hp : Under R P aside p) : Under R Q aside p := by
  induction hp with
  | ret a => exact .ret a
  | halt => exact .halt
  | call ho _ ih => exact .call (h _ ho) ih
  | aside _ ih => exact .aside ih

theorem beside (hp : Under R P aside p) (hR : ∀ o r, R o r)
    (h : ∀ o, P o → Q o) : Beside Q aside p := by
  induction hp with
  | ret a => exact .ret a
  | halt => exact .halt
  | call ho _ ih => exact .call (h _ ho) fun r => ih r (hR _ r)
  | aside _ ih => exact .aside ih

theorem run_invariant (hp : Under R P aside p)
    {exec : (o : Op) → σ → Ret o × σ} {I : σ → Prop}
    (hstep : ∀ o, P o → ∀ s, I s → R o (exec o s).1 ∧ I (exec o s).2)
    (haside : ∀ s, I s → I (aside.run exec s).2) {s : σ} (hs : I s) : I (p.run exec s).2 := by
  induction hp generalizing s with
  | ret a => exact hs
  | halt => exact hs
  | call ho _ ih =>
    obtain ⟨hr, hnext⟩ := hstep _ ho s hs
    exact ih _ hr hnext
  | aside _ ih =>
    have hthen := haside s hs
    rw [run_bind]
    split
    · next s' h =>
      rw [h] at hthen
      exact ih hthen
    · next s' h =>
      rw [h] at hthen
      exact hthen

end Under

def trace (exec : (o : Op) → σ → Ret o × σ) : Program Op Ret α → σ → List ((o : Op) × Ret o)
  | ret _, _ | halt, _ => []
  | call o k, s => ⟨o, (exec o s).1⟩ :: trace exec (k (exec o s).1) (exec o s).2

theorem trace_bind (exec : (o : Op) → σ → Ret o × σ) (p : Program Op Ret α)
    (f : α → Program Op Ret β) (s : σ) :
    trace exec (p >>= f) s = trace exec p s ++
      match run exec p s with
      | (some a, s') => trace exec (f a) s'
      | (none, _) => [] := by
  induction p generalizing s with
  | ret a => rfl
  | halt => rfl
  | call o k ih => simp only [call_bind, trace, run_call, ih, List.cons_append]

inductive Returns : Program Op Ret α → Prop where
  | ret (a : α) : Returns (ret a)
  | call {o : Op} {k : Ret o → Program Op Ret α} (hk : ∀ r, Returns (k r)) : Returns (call o k)

namespace Returns

variable {p : Program Op Ret α}

theorem perform (o : Op) : Returns (perform o : Program Op Ret (Ret o)) := .call .ret

theorem bind {f : α → Program Op Ret β} (hp : Returns p)
    (hf : ∀ a, Returns (f a)) : Returns (p >>= f) := by
  induction hp with
  | ret a => exact hf a
  | call _ ih => exact .call ih

theorem mapM {γ : Type} {f : γ → Program Op Ret α} (hf : ∀ c, Returns (f c)) (cs : List γ) :
    Returns (cs.mapM f) := by
  induction cs with
  | nil => exact .ret _
  | cons c cs ih =>
    rw [List.mapM_cons]
    exact (hf c).bind fun _ => ih.bind fun _ => .ret _

theorem run (hp : Returns p) (exec : (o : Op) → σ → Ret o × σ) (s : σ) :
    ∃ a, (Program.run exec p s).1 = some a := by
  induction hp generalizing s with
  | ret a => exact ⟨a, rfl⟩
  | call _ ih => exact ih _ _

theorem run_ret (hp : Returns p) (exec : (o : Op) → σ → Ret o × σ) (b : β)
    (s : σ) : Program.run exec (p >>= fun _ => .ret b) s = (some b, (Program.run exec p s).2) := by
  induction hp generalizing s with
  | ret a => rfl
  | call _ ih => exact ih _ _

end Returns

/-- Two interpretations that agree step by step on the operations a program performs
give the same result and end in related states. -/
theorem run_simulates (hp : Calls P p)
    {exec : (o : Op) → σ → Ret o × σ} {exec' : (o : Op) → τ → Ret o × τ} {R : σ → τ → Prop}
    (step : ∀ o, P o → ∀ s t, R s t → (exec o s).1 = (exec' o t).1 ∧ R (exec o s).2 (exec' o t).2)
    {s : σ} {t : τ} (hst : R s t) :
    (run exec p s).1 = (run exec' p t).1 ∧ R (run exec p s).2 (run exec' p t).2 := by
  induction hp generalizing s t with
  | ret a => exact ⟨rfl, hst⟩
  | halt => exact ⟨rfl, hst⟩
  | @call o k ho _ ih =>
    have hs := step o ho s t hst
    rw [run_call, run_call, hs.1]
    exact ih _ hs.2

theorem run_invariant (hp : Calls P p)
    {exec : (o : Op) → σ → Ret o × σ} {I : σ → Prop}
    (step : ∀ o, P o → ∀ s, I s → I (exec o s).2) {s : σ} (hs : I s) : I (run exec p s).2 := by
  induction hp generalizing s with
  | ret a => exact hs
  | halt => exact hs
  | call ho _ ih => exact ih _ (step _ ho _ hs)

end Program

end RocketMem
