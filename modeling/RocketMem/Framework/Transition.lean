import Mathlib.Logic.Basic

namespace RocketMem

variable {σ ε : Type}

/-- The states that runs from `start` reach whose every event is permitted where it happens. -/
inductive RunsTo (step : σ → ε → σ) (permits : σ → ε → Prop) (start : σ) : σ → Prop
  | start : RunsTo step permits start start
  | next {s : σ} (h : RunsTo step permits start s) (e : ε) (he : permits s e) :
      RunsTo step permits start (step s e)

namespace RunsTo

variable {step : σ → ε → σ} {permits : σ → ε → Prop} {start s : σ}

theorem invariant {I : σ → Prop} (hstart : I start)
    (hstep : ∀ s e, permits s e → I s → I (step s e)) (h : RunsTo step permits start s) : I s := by
  induction h with
  | start => exact hstart
  | next _ e he ih => exact hstep _ e he ih

theorem mono {permits' : σ → ε → Prop} (hp : ∀ s e, permits s e → permits' s e)
    (h : RunsTo step permits start s) : RunsTo step permits' start s := by
  induction h with
  | start => exact .start
  | next _ e he ih => exact ih.next e (hp _ e he)

theorem trans {s' : σ} (h : RunsTo step permits start s) (h' : RunsTo step permits s s') :
    RunsTo step permits start s' := by
  induction h' with
  | start => exact h
  | next _ e he ih => exact ih.next e he

end RunsTo

variable (step : σ → ε → σ) (P : σ → Prop) (Q : σ → ε → Prop)

def Throughout : σ → List ε → Prop
  | s, [] => P s
  | s, e :: es => P s ∧ Throughout (step s e) es

def EachStep : σ → List ε → Prop
  | _, [] => True
  | s, e :: es => Q s e ∧ EachStep (step s e) es

variable {step P Q} {permits : σ → ε → Prop} {J : σ → Prop} {s : σ}

theorem RunsTo.of_eachStep {start : σ} {es : List ε} (hs : RunsTo step permits start s)
    (h : EachStep step permits s es) : RunsTo step permits start (es.foldl step s) := by
  induction es generalizing s with
  | nil => exact hs
  | cons e es ih =>
    obtain ⟨he, hes⟩ := h
    exact ih (hs.next e he) hes

theorem Throughout.head {es : List ε} (h : Throughout step P s es) : P s := by
  cases es with
  | nil => exact h
  | cons e es => exact h.1

theorem throughout_iff (hJ : ∀ s e, J s → permits s e → J (step s e))
    (hstep : ∀ s e, J s → permits s e → P s → (P (step s e) ↔ Q s e)) {es : List ε} (hj : J s)
    (hs : P s) (hpermits : EachStep step permits s es) :
    Throughout step P s es ↔ EachStep step Q s es := by
  induction es generalizing s with
  | nil => exact ⟨fun _ => trivial, fun _ => hs⟩
  | cons e es ih =>
    obtain ⟨he, hpermits⟩ := hpermits
    have hiff := hstep s e hj he hs
    constructor
    · intro h
      have hnext := h.2.head
      exact ⟨hiff.mp hnext, (ih (hJ s e hj he) hnext hpermits).mp h.2⟩
    · intro h
      have hnext := hiff.mpr h.1
      exact ⟨hs, (ih (hJ s e hj he) hnext hpermits).mpr h.2⟩

end RocketMem
