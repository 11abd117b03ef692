import Mathlib.Data.List.Basic

namespace RocketMem

open List

variable {α : Type} {needs : α → α → Prop} {l m : List α} {x : α}

/-- Whatever an element needs stands before it. -/
def Preceded (needs : α → α → Prop) (l : List α) : Prop :=
  ∀ before x after, l = before ++ x :: after → ∀ y, needs x y → y ∈ before

namespace Preceded

theorem nil : Preceded needs [] := by
  intro before x after h
  exact absurd h.symm (append_ne_nil_of_right_ne_nil before (cons_ne_nil x after))

theorem of_append (h : Preceded needs (l ++ m)) : Preceded needs l := by
  intro before x after hl
  apply h before x (after ++ m)
  rw [hl, append_assoc, cons_append]

theorem insert (h : Preceded needs (l ++ m)) (hx : ∀ y, needs x y → y ∈ l) :
    Preceded needs (l ++ x :: m) := by
  intro before z after hsplit y hy
  rcases append_eq_append_iff.mp hsplit with ⟨mid, hbefore, hrest⟩ | ⟨mid, hl, hrest⟩
  · cases mid with
    | nil =>
      obtain ⟨rfl, -⟩ := List.cons.inj hrest
      rw [hbefore, append_nil]
      exact hx y hy
    | cons w mid =>
      obtain ⟨rfl, hm⟩ := List.cons.inj hrest
      have hold : y ∈ l ++ mid := by
        apply h (l ++ mid) z after _ y hy
        rw [append_assoc]
        exact congrArg (l ++ ·) hm
      rw [hbefore]
      exact (sublist_cons_self x mid).append_left l |>.subset hold
  · cases mid with
    | nil =>
      obtain ⟨rfl, -⟩ := List.cons.inj hrest
      rw [append_nil] at hl
      exact hl ▸ hx y hy
    | cons w mid =>
      obtain ⟨rfl, -⟩ := List.cons.inj hrest
      apply h before z (mid ++ m) _ y hy
      rw [hl, append_assoc, cons_append]

theorem concat (h : Preceded needs l) (hx : ∀ y, needs x y → y ∈ l) :
    Preceded needs (l ++ [x]) := by
  apply insert _ hx
  rwa [append_nil]

theorem mono {needs' : α → α → Prop} (h : Preceded needs l)
    (hneeds : ∀ x ∈ l, ∀ y, needs' x y → needs x y) : Preceded needs' l := by
  intro before x after hl y hy
  have hx : x ∈ l := by simp [hl]
  exact h before x after hl y (hneeds x hx y hy)

end Preceded

end RocketMem
