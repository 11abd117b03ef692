import Mathlib.Data.List.Basic

namespace RocketMem

open List

variable {τ α : Type} (isStar : τ → Bool) (accepts : τ → α → Bool)

/-- The text splits into consecutive pieces matched by the tokens: any run by a star, one element
by any other token. -/
inductive Matches : List τ → List α → Prop
  | nil : Matches [] []
  | one {t : τ} {c : α} {tokens : List τ} {text : List α} (ht : isStar t = false)
      (hc : accepts t c = true) (h : Matches tokens text) : Matches (t :: tokens) (c :: text)
  | star {t : τ} {tokens : List τ} {text : List α} (ht : isStar t = true) (piece : List α)
      (h : Matches tokens text) : Matches (t :: tokens) (piece ++ text)

/-- A walk over tokens and text that remembers the last star: the tokens behind it and the text it
was tried at. -/
structure Walk (τ α : Type) where
  tokens : List τ
  text : List α
  back : Option (List τ × List α)

def Walk.next (w : Walk τ α) : Walk τ α ⊕ Bool :=
  match w.text with
  | [] => .inr (w.tokens.all isStar)
  | c :: text =>
    if (w.tokens.head?).any fun t => accepts t c then
      .inl ⟨w.tokens.tail, text, w.back⟩
    else if (w.tokens.head?).any isStar then
      .inl ⟨w.tokens.tail, c :: text, some (w.tokens.tail, c :: text)⟩
    else match w.back with
      | some (tokens, text) => .inl ⟨tokens, text.tail, some (tokens, text.tail)⟩
      | none => .inr false

variable {isStar accepts}

section

variable {t : τ} {c : α} {tokens front : List τ} {text : List α}

theorem Matches.first (h : Matches isStar accepts (t :: tokens) text) :
    (isStar t = false ∧ ∃ c rest, text = c :: rest ∧ accepts t c = true ∧
      Matches isStar accepts tokens rest) ∨
    (isStar t = true ∧ ∃ n, Matches isStar accepts tokens (text.drop n)) := by
  generalize hwhole : text = whole at h
  cases h with
  | one ht hc h => exact .inl ⟨ht, _, _, rfl, hc, h⟩
  | star ht piece h => exact .inr ⟨ht, piece.length, by rwa [drop_left]⟩

theorem matches_nil_iff : Matches isStar accepts [] text ↔ text = [] := by
  constructor
  · intro h
    cases h
    rfl
  · rintro rfl
    exact .nil

theorem matches_one_iff (ht : isStar t = false) :
    Matches isStar accepts (t :: tokens) (c :: text) ↔
      accepts t c = true ∧ Matches isStar accepts tokens text := by
  constructor
  · intro h
    rcases h.first with ⟨-, d, rest, heq, hc, h⟩ | ⟨hstar, -⟩
    · cases heq
      exact ⟨hc, h⟩
    · rw [ht] at hstar
      cases hstar
  · intro ⟨hc, h⟩
    exact .one ht hc h

theorem matches_star_iff (ht : isStar t = true) :
    Matches isStar accepts (t :: tokens) text ↔
      ∃ n, Matches isStar accepts tokens (text.drop n) := by
  constructor
  · intro h
    rcases h.first with ⟨hone, -⟩ | ⟨-, h⟩
    · rw [ht] at hone
      cases hone
    · exact h
  · intro ⟨n, h⟩
    have hsplit := Matches.star ht (text.take n) h
    rwa [take_append_drop] at hsplit

theorem matches_empty_iff : Matches isStar accepts tokens [] ↔ tokens.all isStar = true := by
  induction tokens with
  | nil => simp [matches_nil_iff]
  | cons t tokens ih =>
    cases ht : isStar t with
    | false =>
      simp only [all_cons, ht, Bool.false_and, Bool.false_eq_true, iff_false]
      intro h
      rcases h.first with ⟨-, d, rest, heq, -⟩ | ⟨hstar, -⟩
      · cases heq
      · rw [ht] at hstar
        cases hstar
    | true =>
      rw [matches_star_iff ht]
      simp only [drop_nil, exists_const, all_cons, ht, Bool.true_and]
      exact ih

theorem Matches.of_front (hfront : ∀ t ∈ front, isStar t = false)
    (h : Matches isStar accepts (front ++ tokens) text) :
    front.length ≤ text.length ∧ Matches isStar accepts tokens (text.drop front.length) := by
  induction front generalizing text with
  | nil => exact ⟨Nat.zero_le _, h⟩
  | cons t front ih =>
    rcases h.first with ⟨-, c, rest, rfl, -, h⟩ | ⟨hstar, -⟩
    · obtain ⟨hlen, hrest⟩ := ih (fun t ht => hfront t (mem_cons_of_mem _ ht)) h
      exact ⟨Nat.succ_le_succ hlen, hrest⟩
    · rw [hfront t mem_cons_self] at hstar
      cases hstar

end

namespace Walk

def Linked (isStar : τ → Bool) (w : Walk τ α) : Prop :=
  ∀ tokens text, w.back = some (tokens, text) →
    ∃ front passed, tokens = front ++ w.tokens ∧ text = passed ++ w.text ∧
      front.length = passed.length ∧ ∀ t ∈ front, isStar t = false

def Alive (isStar : τ → Bool) (accepts : τ → α → Bool) (w : Walk τ α) : Prop :=
  Matches isStar accepts w.tokens w.text ∨
    ∃ tokens text n, w.back = some (tokens, text) ∧
      Matches isStar accepts tokens (text.drop (n + 1))

variable {w w' : Walk τ α} {b : Bool}

inductive Turn (isStar : τ → Bool) (accepts : τ → α → Bool) : Walk τ α → Walk τ α ⊕ Bool → Prop
  | finish (tokens : List τ) (back : Option (List τ × List α)) :
      Turn isStar accepts ⟨tokens, [], back⟩ (.inr (tokens.all isStar))
  | pass (t : τ) (c : α) (tokens : List τ) (text : List α) (back : Option (List τ × List α))
      (hc : accepts t c = true) :
      Turn isStar accepts ⟨t :: tokens, c :: text, back⟩ (.inl ⟨tokens, text, back⟩)
  | star (t : τ) (c : α) (tokens : List τ) (text : List α) (back : Option (List τ × List α))
      (ht : isStar t = true) :
      Turn isStar accepts ⟨t :: tokens, c :: text, back⟩
        (.inl ⟨tokens, c :: text, some (tokens, c :: text)⟩)
  | retry {c : α} {tokens : List τ} {text : List α} (again : List τ) (from_ : List α)
      (hstuck : ¬ Matches isStar accepts tokens (c :: text)) :
      Turn isStar accepts ⟨tokens, c :: text, some (again, from_)⟩
        (.inl ⟨again, from_.tail, some (again, from_.tail)⟩)
  | fail {c : α} {tokens : List τ} {text : List α}
      (hstuck : ¬ Matches isStar accepts tokens (c :: text)) :
      Turn isStar accepts ⟨tokens, c :: text, none⟩ (.inr false)

theorem not_matches_of_stuck {c : α} {tokens : List τ} (text : List α)
    (hpass : ¬ (tokens.head?.any fun t => accepts t c) = true)
    (hstar : ¬ tokens.head?.any isStar = true) : ¬ Matches isStar accepts tokens (c :: text) := by
  intro h
  cases tokens with
  | nil => cases matches_nil_iff.mp h
  | cons t tokens =>
    have ht : isStar t = false := by simpa using hstar
    exact hpass ((matches_one_iff ht).mp h).1

theorem turn_next (w : Walk τ α) : Turn isStar accepts w (w.next isStar accepts) := by
  obtain ⟨tokens, text, back⟩ := w
  cases text with
  | nil => exact .finish tokens back
  | cons c text =>
    unfold next
    dsimp only
    split_ifs with hpass hstar
    · cases tokens with
      | nil => cases hpass
      | cons t tokens => exact .pass t c tokens text back hpass
    · cases tokens with
      | nil => cases hstar
      | cons t tokens => exact .star t c tokens text back hstar
    · have hstuck := not_matches_of_stuck text hpass hstar
      cases back with
      | none => exact .fail hstuck
      | some back => exact .retry back.1 back.2 hstuck

theorem not_star_of_accepts (hstars : ∀ t c, isStar t = true → accepts t c = false) {t : τ} {c : α}
    (hc : accepts t c = true) : isStar t = false := by
  cases ht : isStar t with
  | false => rfl
  | true =>
    rw [hstars t c ht] at hc
    cases hc

theorem Turn.linked (hstars : ∀ t c, isStar t = true → accepts t c = false)
    (h : Turn isStar accepts w (.inl w')) (hw : w.Linked isStar) : w'.Linked isStar := by
  cases h with
  | pass t c tokens text back hc =>
    intro again from_ hback
    obtain ⟨front, passed, rfl, rfl, hlen, hfront⟩ := hw again from_ hback
    refine ⟨front ++ [t], passed ++ [c], by simp, by simp, by simp [hlen], ?_⟩
    intro u hu
    rcases mem_append.mp hu with hu | hu
    · exact hfront u hu
    · rw [mem_singleton.mp hu]
      exact not_star_of_accepts hstars hc
  | star t c tokens text back ht | retry tokens text hstuck =>
    intro again from_ hback
    cases hback
    exact ⟨[], [], rfl, rfl, rfl, by simp⟩

theorem matches_of_earlier {t : τ} {tokens again : List τ} {text from_ : List α} {n : Nat}
    {back : Option (List τ × List α)} (ht : isStar t = true)
    (hw : Linked isStar (⟨t :: tokens, text, back⟩ : Walk τ α)) (hback : back = some (again, from_))
    (h : Matches isStar accepts again (from_.drop (n + 1))) :
    Matches isStar accepts (t :: tokens) text := by
  obtain ⟨front, passed, rfl, rfl, hlen, hfront⟩ := hw again from_ hback
  have hrest := (h.of_front hfront).2
  rw [drop_drop, hlen, Nat.add_comm, ← drop_drop, drop_left] at hrest
  obtain ⟨m, hm⟩ := (matches_star_iff ht).mp hrest
  rw [drop_drop] at hm
  exact (matches_star_iff ht).mpr ⟨_, hm⟩

theorem Turn.alive_iff (hstars : ∀ t c, isStar t = true → accepts t c = false)
    (h : Turn isStar accepts w (.inl w')) (hw : w.Linked isStar) :
    w'.Alive isStar accepts ↔ w.Alive isStar accepts := by
  cases h with
  | pass t c tokens text back hc =>
    unfold Alive
    rw [matches_one_iff (not_star_of_accepts hstars hc)]
    simp [hc]
  | star t c tokens text back ht =>
    constructor
    · intro halive
      left
      rw [matches_star_iff ht]
      rcases halive with hnow | ⟨again, from_, n, hback, hlater⟩
      · exact ⟨0, hnow⟩
      · cases hback
        exact ⟨n + 1, hlater⟩
    · intro halive
      have hmatch : Matches isStar accepts (t :: tokens) (c :: text) := by
        rcases halive with hnow | ⟨again, from_, n, hback, hlater⟩
        · exact hnow
        · exact matches_of_earlier ht hw hback hlater
      obtain ⟨n, hn⟩ := (matches_star_iff ht).mp hmatch
      cases n with
      | zero => exact .inl hn
      | succ n => exact .inr ⟨tokens, c :: text, n, rfl, hn⟩
  | retry again from_ hstuck =>
    constructor
    · intro halive
      right
      rcases halive with hnow | ⟨again', from', n, hback, hlater⟩
      · exact ⟨again, from_, 0, rfl, by simpa using hnow⟩
      · cases hback
        exact ⟨again, from_, n + 1, rfl, by simpa [drop_tail] using hlater⟩
    · intro halive
      rcases halive with hnow | ⟨again', from', n, hback, hlater⟩
      · exact absurd hnow hstuck
      · cases hback
        cases n with
        | zero => exact .inl (by simpa using hlater)
        | succ n => exact .inr ⟨again, from_.tail, n, rfl, by simpa [drop_tail] using hlater⟩

theorem Turn.answer (h : Turn isStar accepts w (.inr b)) (hw : w.Linked isStar) :
    b = true ↔ w.Alive isStar accepts := by
  cases h with
  | finish tokens back =>
    have hend : Matches isStar accepts tokens [] ↔ tokens.all isStar = true := matches_empty_iff
    rw [← hend]
    constructor
    · exact .inl
    · intro halive
      rcases halive with hnow | ⟨again, from_, n, hback, hlater⟩
      · exact hnow
      · obtain ⟨front, passed, rfl, hfrom, hlen, hfront⟩ := hw again from_ hback
        obtain ⟨hshort, hrest⟩ := hlater.of_front hfront
        rw [hfrom, append_nil] at hshort hrest
        have hnone : (passed.drop (n + 1)).drop front.length = [] := by
          apply drop_eq_nil_of_le
          rw [length_drop, hlen]
          omega
        rwa [hnone] at hrest
  | fail hstuck =>
    constructor
    · intro hfalse
      cases hfalse
    · intro halive
      rcases halive with hnow | ⟨again, from_, n, hback, -⟩
      · exact absurd hnow hstuck
      · cases hback

/-- An upper bound for the turns that are left: those until the next time the remembered star is
tried again, for every place it can be tried at. -/
def potential (width : Nat) (w : Walk τ α) : Nat :=
  (w.back.elim w.text.length fun back => back.2.length) * (width + 1) +
    (w.tokens.length + w.text.length)

def Within (width : Nat) (w : Walk τ α) : Prop :=
  w.tokens.length + w.text.length ≤ width ∧
    ∀ tokens text, w.back = some (tokens, text) → tokens.length + text.length ≤ width

theorem Turn.within {width : Nat} (h : Turn isStar accepts w (.inl w')) (hw : w.Within width) :
    w'.Within width := by
  obtain ⟨hhere, hback⟩ := hw
  cases h with
  | pass t c tokens text back hc =>
    refine ⟨?_, hback⟩
    simp only [length_cons] at hhere
    dsimp only
    omega
  | star t c tokens text back ht =>
    simp only [length_cons] at hhere
    have hshort : tokens.length + (c :: text).length ≤ width := by
      simp only [length_cons]
      omega
    refine ⟨hshort, ?_⟩
    intro again from_ hsome
    cases hsome
    exact hshort
  | retry again from_ hstuck =>
    have hthere := hback again from_ rfl
    have hshort : again.length + from_.tail.length ≤ width := by
      rw [length_tail]
      omega
    refine ⟨hshort, ?_⟩
    intro again' from' hsome
    cases hsome
    exact hshort

theorem Turn.decreases {width : Nat} (h : Turn isStar accepts w (.inl w')) (hw : w.Linked isStar)
    (hwidth : w.Within width) : w'.potential width < w.potential width := by
  cases h with
  | pass t c tokens text back hc =>
    have hback : (back.elim text.length fun back => back.2.length) ≤
        back.elim (c :: text).length fun back => back.2.length := by
      cases back <;> simp
    have hmul := Nat.mul_le_mul_right (width + 1) hback
    simp only [potential, length_cons] at hmul ⊢
    omega
  | star t c tokens text back ht =>
    have hback : (c :: text).length ≤
        back.elim (c :: text).length fun back => back.2.length := by
      cases hsome : back with
      | none => exact Nat.le_refl _
      | some pair =>
        obtain ⟨front, passed, -, hfrom, -⟩ := hw pair.1 pair.2 hsome
        have hlen := congrArg List.length hfrom
        simp only [length_append, length_cons] at hlen
        simp only [Option.elim_some, length_cons]
        omega
    have hmul := Nat.mul_le_mul_right (width + 1) hback
    simp only [potential, length_cons, Option.elim_some] at hmul ⊢
    omega
  | retry again from_ hstuck =>
    obtain ⟨front, passed, -, hfrom, -⟩ := hw again from_ rfl
    have hthere := hwidth.2 again from_ rfl
    -- the remembered place is not at the end, so it moves on
    obtain ⟨n, hn⟩ : ∃ n, from_.length = n + 1 := by
      have hlen := congrArg List.length hfrom
      simp only [length_append, length_cons] at hlen
      exact ⟨from_.length - 1, by omega⟩
    simp only [potential, Option.elim_some, length_tail, hn, Nat.add_sub_cancel]
    have hmul : (n + 1) * (width + 1) = n * (width + 1) + (width + 1) := Nat.succ_mul n (width + 1)
    omega

inductive Answers (isStar : τ → Bool) (accepts : τ → α → Bool) : Walk τ α → Nat → Bool → Prop
  | done {w : Walk τ α} {b : Bool} (h : w.next isStar accepts = .inr b) :
      Answers isStar accepts w 0 b
  | turn {w w' : Walk τ α} {n : Nat} {b : Bool} (h : w.next isStar accepts = .inl w')
      (hrest : Answers isStar accepts w' n b) : Answers isStar accepts w (n + 1) b

theorem answers_alive (hstars : ∀ t c, isStar t = true → accepts t c = false) {width : Nat}
    (hw : w.Linked isStar) (hwidth : w.Within width) :
    ∃ n b, n ≤ w.potential width ∧ Answers isStar accepts w n b ∧
      (b = true ↔ w.Alive isStar accepts) := by
  induction hsize : w.potential width using Nat.strongRecOn generalizing w with
  | ind size ih =>
    have hturn : Turn isStar accepts w (w.next isStar accepts) := turn_next w
    cases hnext : w.next isStar accepts with
    | inr b =>
      rw [hnext] at hturn
      exact ⟨0, b, Nat.zero_le _, .done hnext, hturn.answer hw⟩
    | inl w' =>
      rw [hnext] at hturn
      have hless := hturn.decreases hw hwidth
      obtain ⟨n, b, hn, hrun, hb⟩ := ih _ (hsize ▸ hless) (hturn.linked hstars hw)
        (hturn.within hwidth) rfl
      refine ⟨n + 1, b, ?_, .turn hnext hrun, hb.trans (hturn.alive_iff hstars hw)⟩
      omega

theorem answers_matches (hstars : ∀ t c, isStar t = true → accepts t c = false) (tokens : List τ)
    (text : List α) :
    ∃ n b, n ≤ text.length * (tokens.length + text.length + 1) + (tokens.length + text.length) ∧
      Answers isStar accepts ⟨tokens, text, none⟩ n b ∧
      (b = true ↔ Matches isStar accepts tokens text) := by
  have hlinked : Linked isStar (⟨tokens, text, none⟩ : Walk τ α) := by
    intro again from_ hback
    cases hback
  have hwithin : Within (tokens.length + text.length) (⟨tokens, text, none⟩ : Walk τ α) := by
    refine ⟨Nat.le_refl _, ?_⟩
    intro again from_ hback
    cases hback
  obtain ⟨n, b, hn, hrun, hb⟩ := answers_alive hstars hlinked hwithin
  refine ⟨n, b, hn, hrun, hb.trans ?_⟩
  constructor
  · intro halive
    rcases halive with hnow | ⟨again, from_, m, hback, -⟩
    · exact hnow
    · cases hback
  · exact .inl

end Walk

end RocketMem
