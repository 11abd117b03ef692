import RocketMem.Framework.Bytes

namespace RocketMem

open List

theorem validUtf8Fuel_cons (fuel : Nat) (c : UInt8) (cs : Bytes) :
    validUtf8Fuel (fuel + 1) (c :: cs) =
      ((utf8Chunk (c :: cs)).2 && validUtf8Fuel fuel ((c :: cs).drop (utf8Chunk (c :: cs)).1)) :=
  rfl

theorem validUtf8_cons {c : UInt8} (hc : c.toNat < 128) (cs : Bytes) :
    validUtf8 (c :: cs) = validUtf8 cs := by
  rw [validUtf8, length_cons, validUtf8Fuel_cons, utf8Chunk_ascii hc]
  rfl

/-- Maps ASCII to ASCII and leaves the rest, as the case mappings do. -/
structure MapsAscii (f : UInt8 → UInt8) : Prop where
  ascii : ∀ c, c.toNat < 128 → (f c).toNat < 128
  rest : ∀ c, 128 ≤ c.toNat → f c = c

namespace MapsAscii

variable {f : UInt8 → UInt8} (hf : MapsAscii f)
include hf

theorem isContinuation_map (c : UInt8) : isContinuation (f c) = isContinuation c := by
  by_cases hc : c.toNat < 128
  · have hfc := hf.ascii c hc
    have h (b : UInt8) (hb : b.toNat < 128) : isContinuation b = false := by
      rw [isContinuation, Bool.and_eq_false_iff, decide_eq_false_iff_not]
      exact .inl (by omega)
    rw [h _ hfc, h _ hc]
  · rw [hf.rest c (by omega)]

theorem utf8Width_map (c : UInt8) : utf8Width (f c) = utf8Width c := by
  by_cases hc : c.toNat < 128
  · rw [utf8Width, if_pos (hf.ascii c hc), utf8Width, if_pos hc]
  · rw [hf.rest c (by omega)]

theorem utf8SecondOk_map (lead second : UInt8) :
    utf8SecondOk (f lead) (f second) = utf8SecondOk lead second := by
  have hlead (b : UInt8) (hb : b.toNat < 128) (s : UInt8) :
      utf8SecondOk b s = isContinuation s := by
    unfold utf8SecondOk
    split <;> first | omega | rfl
  have hsecond (l : UInt8) : utf8SecondOk l (f second) = utf8SecondOk l second := by
    by_cases hs : second.toNat < 128
    · have h (b : UInt8) (hb : b.toNat < 128) : utf8SecondOk l b = false := by
        unfold utf8SecondOk isContinuation
        split <;> simp only [Bool.and_eq_false_iff, decide_eq_false_iff_not] <;> left <;> omega
      rw [h _ (hf.ascii second hs), h _ hs]
    · rw [hf.rest second (by omega)]
  by_cases hl : lead.toNat < 128
  · rw [hlead _ (hf.ascii lead hl), hlead _ hl, hf.isContinuation_map]
  · rw [hf.rest lead (by omega), hsecond]

theorem utf8Chunk_map (b : Bytes) : utf8Chunk (b.map f) = utf8Chunk b := by
  cases b with
  | nil => rfl
  | cons b0 b =>
    simp only [map_cons, utf8Chunk, hf.utf8Width_map]
    generalize utf8Width b0 = w
    rcases w with - | - | w
    · rfl
    · rfl
    · rcases b with - | ⟨b1, - | ⟨b2, - | ⟨b3, b⟩⟩⟩
      · rfl
      all_goals simp only [map_cons, map_nil, hf.utf8SecondOk_map, hf.isContinuation_map]

theorem validUtf8_map (b : Bytes) : validUtf8 (b.map f) = validUtf8 b := by
  have h (fuel : Nat) (b : Bytes) : validUtf8Fuel fuel (b.map f) = validUtf8Fuel fuel b := by
    induction fuel generalizing b with
    | zero => cases b <;> rfl
    | succ fuel ih =>
      cases b with
      | nil => rfl
      | cons c cs =>
        have hchunk := hf.utf8Chunk_map (c :: cs)
        rw [map_cons] at hchunk ⊢
        rw [validUtf8Fuel_cons, validUtf8Fuel_cons, hchunk, ← map_cons, ← map_drop, ih]
  rw [validUtf8, length_map, h, validUtf8]

theorem isAscii_map (b : Bytes) : isAscii (b.map f) = isAscii b := by
  have h (c : UInt8) : decide ((f c).toNat < 128) = decide (c.toNat < 128) := by
    by_cases hc : c.toNat < 128
    · rw [decide_eq_true hc, decide_eq_true (hf.ascii c hc)]
    · rw [hf.rest c (by omega)]
  rw [isAscii, isAscii, all_map]
  exact congrArg b.all (funext h)

end MapsAscii

theorem utf8Chunk_pos (c : UInt8) (cs : Bytes) : 0 < (utf8Chunk (c :: cs)).1 := by
  simp only [utf8Chunk]
  repeat' split
  all_goals exact Nat.succ_pos _

theorem lossyFuel_cons (fuel : Nat) (c : UInt8) (cs : Bytes) :
    lossyFuel (fuel + 1) (c :: cs) =
      (if (utf8Chunk (c :: cs)).2 then (c :: cs).take (utf8Chunk (c :: cs)).1
        else [0xEF, 0xBF, 0xBD]) ++ lossyFuel fuel ((c :: cs).drop (utf8Chunk (c :: cs)).1) :=
  rfl

theorem lossyFuel_ascii {fuel : Nat} {b : Bytes} (hlen : b.length ≤ fuel)
    (h : isAscii (lossyFuel fuel b) = true) : lossyFuel fuel b = b := by
  induction fuel generalizing b with
  | zero => rw [length_eq_zero_iff.mp (Nat.le_zero.mp hlen), lossyFuel]
  | succ fuel ih =>
    cases b with
    | nil => rfl
    | cons c cs =>
      rw [lossyFuel_cons] at h ⊢
      rw [isAscii, all_append, Bool.and_eq_true] at h
      obtain ⟨hfirst, hrest⟩ := h
      split at hfirst
      · -- a whole character of ASCII bytes is one byte long
        have hc : c.toNat < 128 := by
          obtain ⟨n, hn⟩ := Nat.exists_eq_add_of_lt (utf8Chunk_pos c cs)
          rw [hn, Nat.zero_add, take_succ_cons, all_cons, Bool.and_eq_true,
            decide_eq_true_eq] at hfirst
          exact hfirst.1
        rw [utf8Chunk_ascii hc] at hrest ⊢
        rw [if_pos rfl, take_succ_cons, take_zero, drop_succ_cons, drop_zero,
          ih (Nat.le_of_succ_le_succ hlen) hrest, singleton_append]
      · exact absurd hfirst (by decide)

theorem fromUtf8Lossy_ascii {b : Bytes} (h : isAscii (fromUtf8Lossy b) = true) :
    fromUtf8Lossy b = b :=
  lossyFuel_ascii (Nat.le_refl _) h

theorem toNat_sub_32 {c : UInt8} (hc : 97 ≤ c.toNat) : (c - 32).toNat = c.toNat - 32 := by
  rw [UInt8.toNat_sub_of_le]
  · rfl
  · rw [UInt8.le_iff_toNat_le]
    exact Nat.le_trans (by decide) hc

theorem upper_eq_iff {c d : UInt8} (hd : d.toNat < 65) :
    (if 97 ≤ c.toNat ∧ c.toNat ≤ 122 then c - 32 else c) = d ↔ c = d := by
  split
  · next hc =>
    have hlower := toNat_sub_32 hc.1
    constructor
    · rintro rfl
      omega
    · rintro rfl
      omega
  · rfl

theorem mem_asciiUpper {d : UInt8} (hd : d.toNat < 65) {b : Bytes} : d ∈ asciiUpper b ↔ d ∈ b := by
  rw [asciiUpper, mem_map]
  constructor
  · rintro ⟨c, hc, heq⟩
    rwa [(upper_eq_iff hd).mp heq] at hc
  · exact fun hmem => ⟨d, hmem, (upper_eq_iff hd).mpr rfl⟩

theorem head?_asciiUpper {d : UInt8} (hd : d.toNat < 65) {b : Bytes} :
    (asciiUpper b).head? = some d ↔ b.head? = some d := by
  cases b with
  | nil => exact Iff.rfl
  | cons c cs =>
    rw [asciiUpper, map_cons, head?_cons, head?_cons, Option.some_inj, Option.some_inj]
    exact upper_eq_iff hd

theorem asciiUpper_eq_nil {b : Bytes} : asciiUpper b = [] ↔ b = [] := map_eq_nil_iff

theorem mapsAscii_upper :
    MapsAscii fun c => if 97 ≤ c.toNat ∧ c.toNat ≤ 122 then c - 32 else c where
  ascii c hc := by
    split
    · next hletter =>
      rw [toNat_sub_32 hletter.1]
      omega
    · exact hc
  rest c hc := if_neg (by omega)

theorem validUtf8_asciiUpper (b : Bytes) : validUtf8 (asciiUpper b) = validUtf8 b :=
  mapsAscii_upper.validUtf8_map b

theorem isAscii_asciiUpper (b : Bytes) : isAscii (asciiUpper b) = isAscii b :=
  mapsAscii_upper.isAscii_map b

end RocketMem
