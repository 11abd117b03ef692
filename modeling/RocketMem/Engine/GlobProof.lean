import RocketMem.Engine.Glob
import RocketMem.Framework.Wildcard
import Mathlib.Tactic.Ring

namespace RocketMem

open List

inductive Listed (c : UInt8) : Bytes → Prop
  | inRange {lo hi : UInt8} {rest : Bytes} (hlo : lo ≤ c) (hhi : c ≤ hi) :
      Listed c (lo :: 45 :: hi :: rest)
  | afterRange {lo hi : UInt8} {rest : Bytes} (h : Listed c rest) :
      Listed c (lo :: 45 :: hi :: rest)
  | byte {rest : Bytes} (hsingle : ∀ hi more, rest ≠ 45 :: hi :: more) : Listed c (c :: rest)
  | afterByte {b : UInt8} {rest : Bytes} (hsingle : ∀ hi more, rest ≠ 45 :: hi :: more)
      (h : Listed c rest) : Listed c (b :: rest)

def GlobToken.Takes (c : UInt8) : GlobToken → Prop
  | .literal b => b = c
  | .any => True
  | .star => False
  | .charClass body negate => Listed c body ↔ negate = false

inductive FirstToken : Bytes → GlobToken → Bytes → Prop
  | star (rest : Bytes) : FirstToken (42 :: rest) .star rest
  | any (rest : Bytes) : FirstToken (63 :: rest) .any rest
  | escaped (b : UInt8) (rest : Bytes) : FirstToken (92 :: b :: rest) (.literal b) rest
  | oneOf {body : Bytes} (rest : Bytes) (hbody : (93 : UInt8) ∉ body)
      (hmark : ∀ mark ∈ body.head?, mark ≠ 94 ∧ mark ≠ 33) :
      FirstToken (91 :: (body ++ 93 :: rest)) (.charClass body false) rest
  | noneOf {mark : UInt8} {body : Bytes} (rest : Bytes) (hbody : (93 : UInt8) ∉ body)
      (hmark : mark = 94 ∨ mark = 33) :
      FirstToken (91 :: mark :: (body ++ 93 :: rest)) (.charClass body true) rest
  -- a backslash at the end and a bracket that nothing closes stand for themselves
  | itself {b : UInt8} {rest : Bytes} (hstar : b ≠ 42) (hany : b ≠ 63) (hescape : b = 92 → rest = [])
      (hopen : b = 91 → (93 : UInt8) ∉ rest) : FirstToken (b :: rest) (.literal b) rest

/-- The text splits into consecutive pieces matched by the pattern's tokens in order. -/
inductive GlobSplit : Bytes → Bytes → Prop
  | nil : GlobSplit [] []
  | star {pattern rest text : Bytes} (hfirst : FirstToken pattern .star rest) (piece : Bytes)
      (h : GlobSplit rest text) : GlobSplit pattern (piece ++ text)
  | one {pattern rest text : Bytes} {token : GlobToken} {c : UInt8}
      (hfirst : FirstToken pattern token rest) (hc : token.Takes c) (h : GlobSplit rest text) :
      GlobSplit pattern (c :: text)

inductive GlobRun (tokens : List GlobToken) (text : Bytes) : GlobState → Bool → Prop
  | finish {s : GlobState} (hend : text[s.si]? = none) :
      GlobRun tokens text s ((tokens.drop s.ti).all (· = .star))
  | fail {s : GlobState} {c : UInt8} (hc : text[s.si]? = some c)
      (hstep : globStep tokens c s = none) : GlobRun tokens text s false
  | turn {s s' : GlobState} {c : UInt8} {b : Bool} (hc : text[s.si]? = some c)
      (hstep : globStep tokens c s = some s') (hrest : GlobRun tokens text s' b) :
      GlobRun tokens text s b

section

variable {c : UInt8}

theorem single_or_range (rest : Bytes) :
    (∀ hi more, rest ≠ 45 :: hi :: more) ∨ ∃ hi more, rest = 45 :: hi :: more := by
  by_cases h : ∃ hi more, rest = 45 :: hi :: more
  · exact .inr h
  · left
    intro hi more heq
    exact h ⟨hi, more, heq⟩

theorem classMatches_single {b : UInt8} {rest : Bytes}
    (hsingle : ∀ hi more, rest ≠ 45 :: hi :: more) :
    classMatches c (b :: rest) = (decide (b = c) || classMatches c rest) := by
  cases rest with
  | nil => rfl
  | cons mid rest =>
    cases rest with
    | nil => rfl
    | cons hi rest =>
      have hmid : mid ≠ 45 := by
        rintro rfl
        exact hsingle hi rest rfl
      rw [classMatches, if_neg hmid]

theorem listed_single_iff {b : UInt8} {rest : Bytes}
    (hsingle : ∀ hi more, rest ≠ 45 :: hi :: more) :
    Listed c (b :: rest) ↔ b = c ∨ Listed c rest := by
  constructor
  · intro h
    cases h with
    | inRange hlo hhi => exact absurd rfl (hsingle _ _)
    | afterRange h => exact absurd rfl (hsingle _ _)
    | byte _ => exact .inl rfl
    | afterByte _ h => exact .inr h
  · rintro (rfl | h)
    · exact .byte hsingle
    · exact .afterByte hsingle h

theorem listed_range_iff {lo hi : UInt8} {rest : Bytes} :
    Listed c (lo :: 45 :: hi :: rest) ↔ (lo ≤ c ∧ c ≤ hi) ∨ Listed c rest := by
  constructor
  · intro h
    cases h with
    | inRange hlo hhi => exact .inl ⟨hlo, hhi⟩
    | afterRange h => exact .inr h
    | byte hsingle => exact absurd rfl (hsingle _ _)
    | afterByte hsingle h => exact absurd rfl (hsingle _ _)
  · rintro (⟨hlo, hhi⟩ | h)
    · exact .inRange hlo hhi
    · exact .afterRange h

theorem classMatches_iff (body : Bytes) : classMatches c body = true ↔ Listed c body := by
  -- a range takes three bytes at once
  induction hlen : body.length using Nat.strongRecOn generalizing body with
  | ind n ih =>
    cases body with
    | nil =>
      constructor
      · intro h
        cases h
      · intro h
        cases h
    | cons b rest =>
      rcases single_or_range rest with hsingle | ⟨hi, more, rfl⟩
      · rw [classMatches_single hsingle, listed_single_iff hsingle, Bool.or_eq_true, decide_eq_true_eq,
          ih rest.length (by simp [← hlen]) rest rfl]
      · have hmore : more.length < n := by
          simp only [length_cons] at hlen
          omega
        rw [classMatches, if_pos rfl, listed_range_iff, Bool.or_eq_true, Bool.and_eq_true,
          decide_eq_true_eq, decide_eq_true_eq, ih more.length hmore more rfl]
        rfl

theorem tokenMatches_iff (token : GlobToken) : tokenMatches token c = true ↔ token.Takes c := by
  cases token with
  | literal b | any | star => simp [tokenMatches, GlobToken.Takes]
  | charClass body negate =>
    simp only [tokenMatches, GlobToken.Takes, ← classMatches_iff]
    cases classMatches c body <;> cases negate <;> simp

end

section

variable {pattern rest : Bytes} {token : GlobToken}

theorem FirstToken.shorter (h : FirstToken pattern token rest) : rest.length < pattern.length := by
  cases h <;> simp only [length_cons, length_append] <;> omega

theorem exists_firstToken (b : UInt8) (rest : Bytes) :
    ∃ token more, FirstToken (b :: rest) token more := by
  by_cases hstar : b = 42
  · subst hstar
    exact ⟨_, _, .star rest⟩
  by_cases hany : b = 63
  · subst hany
    exact ⟨_, _, .any rest⟩
  by_cases hescape : b = 92
  · subst hescape
    cases rest with
    | nil => exact ⟨_, _, .itself hstar hany (fun _ => rfl) (by simp)⟩
    | cons c rest => exact ⟨_, _, .escaped c rest⟩
  by_cases hopen : b = 91 ∧ (93 : UInt8) ∈ rest
  · obtain ⟨rfl, hclose⟩ := hopen
    obtain ⟨body, more, rfl, hbody⟩ := eq_append_cons_of_mem hclose
    cases body with
    | nil => exact ⟨_, _, .oneOf more hbody (by simp)⟩
    | cons mark body =>
      by_cases hmark : mark = 94 ∨ mark = 33
      · exact ⟨_, _, .noneOf more (fun h => hbody (mem_cons_of_mem _ h)) hmark⟩
      · exact ⟨_, _, .oneOf more hbody (by simpa [not_or] using hmark)⟩
  · exact ⟨_, _, .itself hstar hany (fun h => absurd h hescape) fun h hclose => hopen ⟨h, hclose⟩⟩

theorem findIdx?_close {body : Bytes} (rest : Bytes) (hbody : (93 : UInt8) ∉ body) :
    (body ++ 93 :: rest).findIdx? (· = 93) = some body.length := by
  rw [findIdx?_append]
  have hnone : body.findIdx? (fun b => decide (b = 93)) = none := by
    rw [findIdx?_eq_none_iff]
    intro b hb
    have hne : b ≠ 93 := fun h => hbody (h ▸ hb)
    simpa using hne
  rw [hnone]
  simp [findIdx?_cons]

theorem tokenizeFuel_first (fuel : Nat) (h : FirstToken pattern token rest) :
    tokenizeFuel (fuel + 1) pattern = token :: tokenizeFuel fuel rest := by
  cases h with
  | star => rfl
  | any => rfl
  | escaped b => rfl
  | @oneOf body rest hbody hmark =>
    have hneg : ¬ (body.head? = some 94 ∨ body.head? = some 33) := by
      rintro (h | h)
      · exact (hmark _ h).1 rfl
      · exact (hmark _ h).2 rfl
    simp [tokenizeFuel, findIdx?_close rest hbody, hneg]
  | @noneOf mark body rest hbody hmark =>
    have hclose : (93 : UInt8) ∉ mark :: body := by
      rcases hmark with rfl | rfl <;> simp [hbody]
    have hfind := findIdx?_close rest hclose
    rw [cons_append] at hfind
    simp [tokenizeFuel, hfind, hmark]
  | @itself b rest hstar hany hescape hopen =>
    by_cases hbackslash : b = 92
    · rw [hbackslash, hescape hbackslash]
      simp [tokenizeFuel]
    by_cases hbracket : b = 91
    · have hnone : rest.findIdx? (fun b => decide (b = 93)) = none := by
        rw [findIdx?_eq_none_iff]
        intro c hc
        have hne : c ≠ 93 := fun h => hopen hbracket (h ▸ hc)
        simpa using hne
      rw [hbracket]
      simp [tokenizeFuel, hnone]
    · simp [tokenizeFuel, hstar, hany, hbackslash, hbracket]

theorem tokenizeFuel_nil (fuel : Nat) : tokenizeFuel fuel [] = [] := by
  cases fuel <;> rfl

theorem tokenizeFuel_eq {fuel : Nat} (hfuel : pattern.length ≤ fuel) :
    tokenizeFuel fuel pattern = tokenize pattern := by
  induction hlen : pattern.length using Nat.strongRecOn generalizing pattern fuel with
  | ind n ih =>
    cases pattern with
    | nil => rw [tokenizeFuel_nil, tokenize, tokenizeFuel_nil]
    | cons b rest =>
      obtain ⟨token, more, hfirst⟩ := exists_firstToken b rest
      have hshort := hfirst.shorter
      rw [length_cons] at hfuel hlen hshort
      obtain ⟨fuel, rfl⟩ : ∃ k, fuel = k + 1 := ⟨fuel - 1, by omega⟩
      rw [tokenize, length_cons, tokenizeFuel_first _ hfirst, tokenizeFuel_first _ hfirst,
        ih more.length (by omega) (by omega) rfl, ih more.length (by omega) (by omega) rfl]

theorem FirstToken.tokenize_eq (h : FirstToken pattern token rest) :
    tokenize pattern = token :: tokenize rest := by
  have hshort := h.shorter
  rw [← tokenizeFuel_eq (Nat.le_succ pattern.length), tokenizeFuel_first _ h,
    tokenizeFuel_eq (by omega)]

end

def GlobToken.isStar (token : GlobToken) : Bool := token = .star

theorem tokenMatches_star (token : GlobToken) (c : UInt8) (h : token.isStar = true) :
    tokenMatches token c = false := by
  rw [of_decide_eq_true h]
  rfl

theorem isStar_eq_false {token : GlobToken} {c : UInt8} (hc : token.Takes c) :
    token.isStar = false := by
  cases token with
  | star => cases hc
  | literal b => rfl
  | any => rfl
  | charClass body negate => rfl

theorem GlobSplit.matches {pattern text : Bytes} (h : GlobSplit pattern text) :
    Matches GlobToken.isStar tokenMatches (tokenize pattern) text := by
  induction h with
  | nil => exact .nil
  | star hfirst piece h ih =>
    rw [hfirst.tokenize_eq]
    exact .star rfl piece ih
  | one hfirst hc h ih =>
    rw [hfirst.tokenize_eq]
    exact .one (isStar_eq_false hc) ((tokenMatches_iff _).mpr hc) ih

theorem globSplit_of_matches {pattern text : Bytes}
    (h : Matches GlobToken.isStar tokenMatches (tokenize pattern) text) :
    GlobSplit pattern text := by
  induction hlen : pattern.length using Nat.strongRecOn generalizing pattern text with
  | ind n ih =>
    cases pattern with
    | nil =>
      have hnil : text = [] := matches_nil_iff.mp h
      rw [hnil]
      exact .nil
    | cons b rest =>
      obtain ⟨token, more, hfirst⟩ := exists_firstToken b rest
      have hshort := hfirst.shorter
      rw [hlen] at hshort
      rw [hfirst.tokenize_eq] at h
      rcases h.first with ⟨-, c, text, rfl, hc, h⟩ | ⟨hstar, m, h⟩
      · exact .one hfirst ((tokenMatches_iff token).mp hc) (ih _ hshort h rfl)
      · rw [of_decide_eq_true hstar] at hfirst
        have hsplit := GlobSplit.star hfirst (text.take m) (ih _ hshort h rfl)
        rwa [take_append_drop] at hsplit

section

variable {tokens : List GlobToken} {text : Bytes}

def GlobState.walk (tokens : List GlobToken) (text : Bytes) (s : GlobState) : Walk GlobToken UInt8 :=
  ⟨tokens.drop s.ti, text.drop s.si,
    s.star.map fun star => (tokens.drop (star.1 + 1), text.drop star.2)⟩

theorem walk_next_end {s : GlobState} (hend : text[s.si]? = none) :
    (s.walk tokens text).next GlobToken.isStar tokenMatches =
      .inr ((tokens.drop s.ti).all (· = .star)) := by
  have hdrop : text.drop s.si = [] := by
    rw [drop_eq_nil_iff]
    exact getElem?_eq_none_iff.mp hend
  simp only [Walk.next, GlobState.walk, hdrop]
  rfl

theorem walk_next_step {s : GlobState} {c : UInt8} (hc : text[s.si]? = some c) :
    (s.walk tokens text).next GlobToken.isStar tokenMatches =
      (globStep tokens c s).elim (.inr false) fun s' => .inl (s'.walk tokens text) := by
  obtain ⟨ti, si, star⟩ := s
  have hdrop : text.drop si = c :: text.drop (si + 1) := by
    obtain ⟨hlt, hget⟩ := List.getElem?_eq_some_iff.mp hc
    rw [List.drop_eq_getElem_cons hlt, hget]
  have hhead : (tokens.drop ti).head? = tokens[ti]? := List.head?_drop
  have hstar : (tokens[ti]?.any GlobToken.isStar) = decide (tokens[ti]? = some .star) := by
    cases tokens[ti]? <;> simp [GlobToken.isStar]
  simp only [Walk.next, GlobState.walk, hdrop, hhead, tail_drop, hstar, globStep]
  by_cases hpass : (tokens[ti]?.any fun t => tokenMatches t c) = true
  · rw [if_pos hpass, if_pos hpass]
    rfl
  rw [if_neg hpass, if_neg hpass]
  by_cases hnext : tokens[ti]? = some .star
  · rw [if_pos (decide_eq_true hnext), if_pos hnext]
    simp [hdrop]
  rw [if_neg (by simpa using hnext), if_neg hnext]
  cases star with
  | none => rfl
  | some star => simp [tail_drop]

theorem globLoop_of_answers {n : Nat} {w : Walk GlobToken UInt8} {b : Bool}
    (h : w.Answers GlobToken.isStar tokenMatches n b) {s : GlobState}
    (hw : w = s.walk tokens text) {fuel : Nat} (hfuel : n < fuel) :
    globLoop tokens text fuel s = b ∧ GlobRun tokens text s b := by
  induction h generalizing s fuel with
  | done h =>
    obtain ⟨fuel, rfl⟩ : ∃ k, fuel = k + 1 := ⟨fuel - 1, by omega⟩
    subst hw
    cases hc : text[s.si]? with
    | none =>
      rw [walk_next_end hc] at h
      cases h
      exact ⟨by simp only [globLoop, hc], .finish hc⟩
    | some c =>
      rw [walk_next_step hc] at h
      cases hstep : globStep tokens c s with
      | none =>
        rw [hstep] at h
        cases h
        exact ⟨by simp only [globLoop, hc, hstep], .fail hc hstep⟩
      | some s' =>
        rw [hstep] at h
        cases h
  | turn h hrest ih =>
    obtain ⟨fuel, rfl⟩ : ∃ k, fuel = k + 1 := ⟨fuel - 1, by omega⟩
    subst hw
    cases hc : text[s.si]? with
    | none =>
      rw [walk_next_end hc] at h
      cases h
    | some c =>
      rw [walk_next_step hc] at h
      cases hstep : globStep tokens c s with
      | none =>
        rw [hstep] at h
        cases h
      | some s' =>
        rw [hstep] at h
        cases h
        obtain ⟨hloop, hrun⟩ := ih rfl (Nat.lt_of_succ_lt_succ hfuel)
        exact ⟨by simpa only [globLoop, hc, hstep] using hloop, .turn hc hstep hrun⟩

end

/-- `glob_match` comes to an answer, and answers `true` exactly when the text splits as the pattern
says. -/
theorem globMatch_iff_split (pattern text : Bytes) :
    GlobRun (tokenize pattern) text ⟨0, 0, none⟩ (globMatch pattern text) ∧
      (globMatch pattern text = true ↔ GlobSplit pattern text) := by
  obtain ⟨n, b, hn, hanswers, hb⟩ := Walk.answers_matches tokenMatches_star (tokenize pattern) text
  have hfuel : n < (text.length + 2) * (text.length + (tokenize pattern).length + 2) := by
    have hmul : (text.length + 2) * (text.length + (tokenize pattern).length + 2) =
        text.length * ((tokenize pattern).length + text.length + 1) + text.length +
          2 * (text.length + (tokenize pattern).length + 2) := by ring
    omega
  have hstart : Walk.mk (tokenize pattern) text none =
      (GlobState.mk 0 0 none).walk (tokenize pattern) text := rfl
  obtain ⟨hloop, hrun⟩ := globLoop_of_answers hanswers hstart hfuel
  have hmatch : globMatch pattern text = b := hloop
  rw [hmatch]
  refine ⟨hrun, hb.trans ?_⟩
  exact ⟨globSplit_of_matches, GlobSplit.matches⟩

end RocketMem
