import Mathlib.Data.List.Basic

namespace RocketMem

variable {α : Type}

/-- The elements at the positions that satisfy `P`. -/
def atPositions (P : Nat → Bool) (l : List α) : List α :=
  (l.zipIdx.filter fun x => P x.2).map Prod.fst

variable {P Q : Nat → Bool}

@[simp] theorem atPositions_nil : atPositions P ([] : List α) = [] := rfl

theorem atPositions_cons (a : α) (l : List α) :
    atPositions P (a :: l) =
      if P 0 then a :: atPositions (fun p => P (p + 1)) l
      else atPositions (fun p => P (p + 1)) l := by
  have hrest : ((l.zipIdx 1).filter fun x => P x.2).map Prod.fst =
      atPositions (fun p => P (p + 1)) l := by
    rw [List.zipIdx_succ, List.filter_map, List.map_map]
    rfl
  cases h : P 0 with
  | false => simpa [atPositions, h] using hrest
  | true => simpa [atPositions, h] using hrest

theorem atPositions_congr {l : List α} (h : ∀ p < l.length, P p = Q p) :
    atPositions P l = atPositions Q l := by
  induction l generalizing P Q with
  | nil => rfl
  | cons a l ih =>
    have hrest : atPositions (fun p => P (p + 1)) l = atPositions (fun p => Q (p + 1)) l := by
      apply ih
      intro p hp
      exact h (p + 1) (Nat.succ_lt_succ hp)
    rw [atPositions_cons, atPositions_cons, h 0 (Nat.succ_pos _), hrest]

theorem atPositions_none {l : List α} (h : ∀ p < l.length, P p = false) : atPositions P l = [] := by
  induction l generalizing P with
  | nil => rfl
  | cons a l ih =>
    have hrest : atPositions (fun p => P (p + 1)) l = [] := by
      apply ih
      intro p hp
      exact h (p + 1) (Nat.succ_lt_succ hp)
    rw [atPositions_cons, h 0 (Nat.succ_pos _), hrest]
    rfl

theorem atPositions_all {l : List α} (h : ∀ p < l.length, P p = true) : atPositions P l = l := by
  induction l generalizing P with
  | nil => rfl
  | cons a l ih =>
    have hrest : atPositions (fun p => P (p + 1)) l = l := by
      apply ih
      intro p hp
      exact h (p + 1) (Nat.succ_lt_succ hp)
    rw [atPositions_cons, h 0 (Nat.succ_pos _), hrest]
    rfl

theorem atPositions_window (l : List α) (a b : Nat) :
    atPositions (fun p => a ≤ p ∧ p < b) l = (l.drop a).take (b - a) := by
  induction l generalizing a b with
  | nil => simp
  | cons x l ih =>
    rw [atPositions_cons]
    cases a with
    | succ a =>
      have hshift : atPositions (fun p => a + 1 ≤ p + 1 ∧ p + 1 < b) l =
          atPositions (fun p => a ≤ p ∧ p < b - 1) l := by
        apply atPositions_congr
        intro p _
        simp only [decide_eq_decide]
        omega
      rw [hshift, ih]
      have hsub : b - 1 - a = b - (a + 1) := by omega
      simp [hsub]
    | zero =>
      have hshift : atPositions (fun p => 0 ≤ p + 1 ∧ p + 1 < b) l =
          atPositions (fun p => 0 ≤ p ∧ p < b - 1) l := by
        apply atPositions_congr
        intro p _
        simp only [decide_eq_decide]
        omega
      rw [hshift, ih]
      cases b <;> simp

theorem atPositions_append (l l' : List α) :
    atPositions P (l ++ l') = atPositions P l ++ atPositions (fun p => P (p + l.length)) l' := by
  induction l generalizing P with
  | nil => rfl
  | cons a l ih =>
    have hshift : atPositions (fun p => P (p + l.length + 1)) l' =
        atPositions (fun p => P (p + (a :: l).length)) l' := rfl
    rw [List.cons_append, atPositions_cons, atPositions_cons, ih, hshift]
    cases P 0 <;> rfl

theorem reverse_atPositions_reverse (l : List α) :
    (atPositions P l.reverse).reverse = atPositions (fun p => P (l.length - 1 - p)) l := by
  induction l with
  | nil => rfl
  | cons a l ih =>
    have hshift : atPositions (fun p => P (l.length - 1 - p)) l =
        atPositions (fun p => P ((a :: l).length - 1 - (p + 1))) l := by
      apply atPositions_congr
      intro p _
      have hpos : l.length - 1 - p = (a :: l).length - 1 - (p + 1) := by
        rw [List.length_cons]
        omega
      rw [hpos]
    have hlast : atPositions (fun p => P (p + l.reverse.length)) [a] =
        if P l.length then [a] else [] := by
      rw [atPositions_cons, List.length_reverse, Nat.zero_add]
      rfl
    rw [List.reverse_cons, atPositions_append, hlast, List.reverse_append, ih, hshift,
      atPositions_cons]
    have hfirst : P ((a :: l).length - 1 - 0) = P l.length := rfl
    rw [hfirst]
    cases P l.length <;> rfl

end RocketMem
