import RocketMem.Protocol.Codec

namespace RocketMem

open List Parsed

theorem findCrlf_append (t rest : Bytes) (h : findCrlf t = none) :
    findCrlf (t ++ 13 :: 10 :: rest) = some t.length := by
  induction t with
  | nil => rfl
  | cons a t ih =>
    cases t with
    | nil => simp [findCrlf]
    | cons b t =>
      simp only [findCrlf] at h
      split at h
      · cases h
      · next hab =>
        have htail := ih (by simpa using h)
        simp only [cons_append] at htail ⊢
        simp only [findCrlf, if_neg hab, htail, Option.map_some, length_cons]

theorem findCrlf_eq_none_of_no_cr (t : Bytes) (h : ∀ b ∈ t, b ≠ 13) : findCrlf t = none := by
  induction t with
  | nil => rfl
  | cons a t ih =>
    cases t with
    | nil => rfl
    | cons b t =>
      have ha : a ≠ 13 := h a mem_cons_self
      have htail := ih fun c hc => h c (mem_cons_of_mem a hc)
      simp [findCrlf, ha, htail]

theorem findCrlf_stable {p : Bytes} {n : Nat} (h : findCrlf p = some n) (q : Bytes) :
    findCrlf (p ++ q) = some n ∧ n + 2 ≤ p.length := by
  induction p generalizing n with
  | nil => cases h
  | cons a p ih =>
    cases p with
    | nil => cases h
    | cons b p =>
      simp only [findCrlf, cons_append] at h ⊢
      split at h
      · next hab =>
        cases h
        simp [hab]
      · next hab =>
        obtain ⟨m, hm, rfl⟩ := Option.map_eq_some_iff.mp h
        have htail := ih hm
        simp only [cons_append] at htail
        rw [if_neg hab, htail.1]
        exact ⟨rfl, by simpa using htail.2⟩

theorem parseLine_append (t rest : Bytes) (h : findCrlf t = none) (hu : validUtf8 t = true) :
    parseLine (t ++ crlf ++ rest) = .ok t (t.length + 3) := by
  have hcrlf : t ++ crlf ++ rest = t ++ 13 :: 10 :: rest := by simp [crlf]
  rw [hcrlf, parseLine, findCrlf_append t rest h]
  simp only [take_left', hu, if_true]
  congr 1
  omega

theorem parseNumber_showInt (e : DecodeError) (i : Int) (rest : Bytes) (h : InI64 i) :
    parseNumber e (showInt i ++ crlf ++ rest) = .ok i ((showInt i).length + 3) := by
  have hline := parseLine_append (showInt i) rest
    (findCrlf_eq_none_of_no_cr _ fun b hb => (showInt_ascii i b hb).2)
    (validUtf8_of_ascii _ fun b hb => (showInt_ascii i b hb).1)
  rw [parseNumber, hline, bind_ok, parseI64_showInt i h]

theorem parseNumber_showNat (e : DecodeError) (n : Nat) (rest : Bytes) (h : (n : Int) ≤ i64Max) :
    parseNumber e (showNat n ++ crlf ++ rest) = .ok (n : Int) ((showNat n).length + 3) := by
  have hshow : showInt (n : Int) = showNat n := by simp [showInt]
  have := parseNumber_showInt e (n : Int) rest ⟨by unfold i64Min; omega, h⟩
  rwa [hshow] at this

/-- The frames RESP2 transports unchanged: line texts without CRLF, lengths that fit the header. -/
inductive Resp2Frame : Frame → Prop where
  | simple {s : Bytes} (hs : findCrlf s = none) (hu : validUtf8 s = true) : Resp2Frame (.simple s)
  | error {s : Bytes} (hs : findCrlf s = none) (hu : validUtf8 s = true) : Resp2Frame (.error s)
  | integer {n : Int} (hn : InI64 n) : Resp2Frame (.integer n)
  | bulk {b : Bytes} (hb : (b.length : Int) ≤ i64Max) : Resp2Frame (.bulk b)
  | null : Resp2Frame .null
  | array {items : List Frame} (hlen : (items.length : Int) ≤ i64Max)
      (hitems : ∀ f ∈ items, Resp2Frame f) : Resp2Frame (.array items)

theorem encode_pos (f : Frame) : 0 < (encode .resp2 f).length := by
  cases f <;> simp [encode, headerLine]

theorem parseBulkBody_append (b rest : Bytes) (headerLen : Nat) (header : Bytes)
    (hheader : header.length = headerLen) (hb : (b.length : Int) ≤ i64Max)
    (hfit : headerLen + b.length + 2 < 2 ^ 64) :
    parseBulkBody (header ++ (b ++ crlf) ++ rest) headerLen b.length =
      .ok (.bulk b) (headerLen + b.length + 2) := by
  have hlen : ((b.length : Int) % 2 ^ 64).toNat = b.length := by
    unfold i64Max at hb
    omega
  have hne : ¬ (b.length : Int) = -1 := by omega
  have hbuf : (header ++ (b ++ crlf) ++ rest).length = headerLen + b.length + 2 + rest.length := by
    simp [crlf, hheader]
    omega
  have hdata : (((header ++ (b ++ crlf) ++ rest).drop headerLen).take b.length) = b := by
    rw [append_assoc, ← hheader, drop_left, append_assoc, take_left]
  simp only [parseBulkBody, if_neg hne, hlen, hbuf, hdata]
  rw [Nat.mod_eq_of_lt hfit, Nat.mod_eq_of_lt (by omega : headerLen + b.length < 2 ^ 64)]
  rw [if_neg (by omega), if_neg (by omega)]

theorem headerLine_append (kind : UInt8) (text rest : Bytes) :
    headerLine kind text ++ rest = kind :: (text ++ crlf ++ rest) := by
  simp [headerLine]

theorem headerLine_length (kind : UInt8) (text : Bytes) :
    (headerLine kind text).length = text.length + 3 := by
  simp [headerLine, crlf]

theorem parseFrame_bulk (fuel : Nat) (body : Bytes) :
    parseFrame (fuel + 1) (36 :: body) =
      (parseNumber .badBulkLength body).bind fun len n => parseBulkBody (36 :: body) n len := rfl

theorem parseFrame_array (fuel : Nat) (body : Bytes) :
    parseFrame (fuel + 1) (42 :: body) =
      (parseNumber .badArrayLength body).bind fun count n =>
        (parseItems fuel count.toNat ((42 :: body).drop n)).bind fun items m =>
          .ok (.array items) (n + m) := rfl

theorem parseItems_encode (items : List Frame)
    (hitems : ∀ f ∈ items, ∀ (fuel : Nat) (rest : Bytes), (encode .resp2 f).length < fuel →
      parseFrame fuel (encode .resp2 f ++ rest) = .ok f (encode .resp2 f).length)
    (fuel : Nat) (rest : Bytes) (hfuel : (encodeItems .resp2 items).length + 1 < fuel) :
    parseItems fuel items.length (encodeItems .resp2 items ++ rest) =
      .ok items (encodeItems .resp2 items).length := by
  induction items generalizing fuel with
  | nil => cases fuel <;> rfl
  | cons f fs ih =>
    obtain ⟨fuel, rfl⟩ : ∃ m, fuel = m + 1 := ⟨fuel - 1, by omega⟩
    have hpos := encode_pos f
    simp only [encodeItems, length_append] at hfuel ⊢
    have hhead := hitems f mem_cons_self fuel (encodeItems .resp2 fs ++ rest) (by omega)
    have htail := ih (fun g hg => hitems g (mem_cons_of_mem f hg)) fuel (by omega)
    simp only [length_cons, parseItems, append_assoc, hhead, bind_ok, drop_left, htail]

theorem parseFrame_encode {f : Frame} (hf : Resp2Frame f) :
    ∀ (fuel : Nat) (rest : Bytes), (encode .resp2 f).length < fuel →
      parseFrame fuel (encode .resp2 f ++ rest) = .ok f (encode .resp2 f).length := by
  induction hf with
  | @simple s hs hu =>
    intro fuel rest hfuel
    obtain ⟨fuel, rfl⟩ : ∃ m, fuel = m + 1 := ⟨fuel - 1, by omega⟩
    simp only [encode, headerLine_append, headerLine_length, parseFrame, if_true]
    rw [parseLine_append s rest hs hu, bind_ok]
  | @error s hs hu =>
    intro fuel rest hfuel
    obtain ⟨fuel, rfl⟩ : ∃ m, fuel = m + 1 := ⟨fuel - 1, by omega⟩
    simp only [encode, headerLine_append, headerLine_length, parseFrame]
    rw [parseLine_append s rest hs hu]
    rfl
  | @integer n hn =>
    intro fuel rest hfuel
    obtain ⟨fuel, rfl⟩ : ∃ m, fuel = m + 1 := ⟨fuel - 1, by omega⟩
    simp only [encode, headerLine_append, headerLine_length, parseFrame]
    rw [parseNumber_showInt .badInteger n rest hn]
    rfl
  | @bulk b hb =>
    intro fuel rest hfuel
    obtain ⟨fuel, rfl⟩ : ∃ m, fuel = m + 1 := ⟨fuel - 1, by omega⟩
    have hdigits : (showNat b.length).length ≤ 19 :=
      showNat_length_le 19 (by decide) (by unfold i64Max at hb; omega)
    have hbuf : encode .resp2 (.bulk b) ++ rest =
        36 :: (showNat b.length ++ crlf ++ (b ++ crlf ++ rest)) := by
      rw [encode, append_assoc, headerLine_append]
    have hbody := parseBulkBody_append b rest _ _
      (headerLine_length 36 (showNat b.length)) hb (by unfold i64Max at hb; omega)
    have hlen : (encode .resp2 (.bulk b)).length = (showNat b.length).length + 3 + b.length + 2 := by
      simp [encode, headerLine_length, crlf]
      omega
    rw [append_assoc, headerLine_append] at hbody
    rw [hlen, hbuf, parseFrame_bulk, parseNumber_showNat _ _ _ hb, bind_ok, hbody]
  | null =>
    intro fuel rest hfuel
    obtain ⟨fuel, rfl⟩ : ∃ m, fuel = m + 1 := ⟨fuel - 1, by omega⟩
    simp only [encode, headerLine_append, headerLine_length, parseFrame]
    rw [show ([45, 49] : Bytes) = showInt (-1) from rfl,
      parseNumber_showInt .badBulkLength (-1) rest (by decide)]
    rfl
  | @array items hlen hitems ih =>
    intro fuel rest hfuel
    obtain ⟨fuel, rfl⟩ : ∃ m, fuel = m + 1 := ⟨fuel - 1, by omega⟩
    have hbuf : encode .resp2 (.array items) ++ rest =
        42 :: (showNat items.length ++ crlf ++ (encodeItems .resp2 items ++ rest)) := by
      rw [encode, append_assoc, headerLine_append]
    have hlen' : (encode .resp2 (.array items)).length =
        (showNat items.length).length + 3 + (encodeItems .resp2 items).length := by
      rw [encode, length_append, headerLine_length]
    have hdrop : List.drop ((showNat items.length).length + 3)
        (42 :: (showNat items.length ++ crlf ++ (encodeItems .resp2 items ++ rest))) =
        encodeItems .resp2 items ++ rest := by
      rw [← headerLine_append, ← headerLine_length 42, drop_left]
    rw [hbuf, hlen', parseFrame_array, parseNumber_showNat _ _ _ hlen, bind_ok, hdrop,
      Int.toNat_natCast, parseItems_encode items ih fuel rest (by omega), bind_ok]

theorem decode_encode {f : Frame} (hf : Resp2Frame f) (rest : Bytes) :
    decode (encode .resp2 f ++ rest) = .ok f (encode .resp2 f).length :=
  parseFrame_encode hf _ rest (by simp)

def Parsed.Extends {α : Type} (r r' : Parsed α) : Prop := r = .incomplete ∨ r' = r

theorem Parsed.Extends.bind {α β : Type} {r r' : Parsed α} {f f' : α → Nat → Parsed β}
    (h : r.Extends r') (hf : ∀ a n, r = .ok a n → (f a n).Extends (f' a n)) :
    (r.bind f).Extends (r'.bind f') := by
  rcases h with rfl | rfl
  · exact .inl rfl
  · cases r' with
    | incomplete => exact .inl rfl
    | ok a n => exact hf a n rfl
    | invalid e => exact .inr rfl
    | panic => exact .inr rfl

theorem Parsed.bind_eq_ok {α β : Type} {r : Parsed α} {f : α → Nat → Parsed β} {b : β} {m : Nat} :
    r.bind f = .ok b m ↔ ∃ a n, r = .ok a n ∧ f a n = .ok b m := by
  cases r <;> simp [Parsed.bind]

theorem parseLine_extends (p q : Bytes) : (parseLine p).Extends (parseLine (p ++ q)) := by
  unfold parseLine
  cases h : findCrlf p with
  | none => exact .inl rfl
  | some n =>
    have hs := findCrlf_stable h q
    have htake : (p ++ q).take n = p.take n := take_append_of_le_length (by omega)
    right
    simp only [hs.1, htake]

theorem parseLine_bound {p t : Bytes} {n : Nat} (h : parseLine p = .ok t n) : n ≤ p.length + 1 := by
  unfold parseLine at h
  cases hf : findCrlf p with
  | none => simp [hf] at h
  | some m =>
    have hs := (findCrlf_stable hf []).2
    simp only [hf] at h
    split at h
    · cases h
      omega
    · cases h

theorem parseNumber_extends (e : DecodeError) (p q : Bytes) :
    (parseNumber e p).Extends (parseNumber e (p ++ q)) :=
  (parseLine_extends p q).bind fun _ _ _ => .inr rfl

theorem parseNumber_bound {e : DecodeError} {p : Bytes} {i : Int} {n : Nat}
    (h : parseNumber e p = .ok i n) : n ≤ p.length + 1 := by
  obtain ⟨t, m, hl, h⟩ := Parsed.bind_eq_ok.mp h
  split at h
  · cases h
    exact parseLine_bound hl
  · cases h

theorem parseBulkBody_extends (p q : Bytes) (headerLen : Nat) (len : Int)
    (hq : (p ++ q).length < 2 ^ 63) (hheader : headerLen ≤ p.length) :
    (parseBulkBody p headerLen len).Extends (parseBulkBody (p ++ q) headerLen len) := by
  rw [length_append] at hq
  unfold parseBulkBody
  by_cases hnull : len = -1
  · simp only [if_pos hnull]
    exact .inr rfl
  · simp only [if_neg hnull]
    generalize hl : (len % 2 ^ 64).toNat = l
    have hl64 : l < 2 ^ 64 := by omega
    by_cases hshort : p.length < (headerLen + l + 2) % 2 ^ 64
    · exact .inl (if_pos hshort)
    · have hlong : ¬ (p ++ q).length < (headerLen + l + 2) % 2 ^ 64 := by
        rw [length_append]
        omega
      rw [if_neg hshort, if_neg hlong]
      by_cases hstop : (headerLen + l) % 2 ^ 64 < headerLen ∨ p.length < (headerLen + l) % 2 ^ 64
      · have hstop' : (headerLen + l) % 2 ^ 64 < headerLen ∨
            (p ++ q).length < (headerLen + l) % 2 ^ 64 := by
          rw [length_append]
          omega
        rw [if_pos hstop, if_pos hstop']
        exact .inr rfl
      · have hfit : headerLen + l ≤ p.length := by omega
        have hstop' : ¬ ((headerLen + l) % 2 ^ 64 < headerLen ∨
            (p ++ q).length < (headerLen + l) % 2 ^ 64) := by
          rw [length_append]
          omega
        rw [if_neg hstop, if_neg hstop', drop_append_of_le_length hheader,
          take_append_of_le_length (by rw [length_drop]; omega)]
        exact .inr rfl

theorem parseBulkBody_bound {p : Bytes} {headerLen : Nat} {len : Int} {f : Frame} {n : Nat}
    (hheader : headerLen ≤ p.length) (h : parseBulkBody p headerLen len = .ok f n) :
    n ≤ p.length := by
  unfold parseBulkBody at h
  split at h
  · cases h
    exact hheader
  · simp only at h
    split at h
    · cases h
    · split at h
      · cases h
      · cases h
        omega

theorem parse_bound (fuel : Nat) :
    (∀ p f n, parseFrame fuel p = .ok f n → n ≤ p.length) ∧
    (∀ count p fs n, parseItems fuel count p = .ok fs n → n ≤ p.length) := by
  induction fuel with
  | zero =>
    refine ⟨?_, ?_⟩
    · intro p f n h
      cases p <;> cases h
    · intro count p fs n h
      cases count <;> cases h
      exact Nat.zero_le _
  | succ fuel ih =>
    refine ⟨?_, ?_⟩
    · intro p f n h
      cases p with
      | nil => cases h
      | cons kind body =>
        simp only [parseFrame] at h
        split_ifs at h
        · obtain ⟨t, m, hl, h⟩ := Parsed.bind_eq_ok.mp h
          cases h
          exact parseLine_bound hl
        · obtain ⟨t, m, hl, h⟩ := Parsed.bind_eq_ok.mp h
          cases h
          exact parseLine_bound hl
        · obtain ⟨i, m, hl, h⟩ := Parsed.bind_eq_ok.mp h
          cases h
          exact parseNumber_bound hl
        · obtain ⟨len, m, hl, h⟩ := Parsed.bind_eq_ok.mp h
          exact parseBulkBody_bound (parseNumber_bound hl) h
        · obtain ⟨count, m, hl, h⟩ := Parsed.bind_eq_ok.mp h
          obtain ⟨items, k, hi, h⟩ := Parsed.bind_eq_ok.mp h
          cases h
          have hm : m ≤ (kind :: body).length := parseNumber_bound hl
          have hk := ih.2 _ _ _ _ hi
          rw [length_drop] at hk
          omega
    · intro count p fs n h
      cases count with
      | zero =>
        cases h
        exact Nat.zero_le _
      | succ count =>
        obtain ⟨item, m, hf, h⟩ := Parsed.bind_eq_ok.mp h
        obtain ⟨items, k, hi, h⟩ := Parsed.bind_eq_ok.mp h
        cases h
        have hm := ih.1 _ _ _ hf
        have hk := ih.2 _ _ _ _ hi
        rw [length_drop] at hk
        omega

theorem parse_extends (fuel : Nat) (q : Bytes) :
    (∀ fuel' p, fuel ≤ fuel' → (p ++ q).length < 2 ^ 63 →
      (parseFrame fuel p).Extends (parseFrame fuel' (p ++ q))) ∧
    (∀ fuel' count p, fuel ≤ fuel' → (p ++ q).length < 2 ^ 63 →
      (parseItems fuel count p).Extends (parseItems fuel' count (p ++ q))) := by
  induction fuel with
  | zero =>
    refine ⟨?_, ?_⟩
    · intro fuel' p _ _
      cases p <;> exact .inl rfl
    · intro fuel' count p _ _
      cases count with
      | zero => exact .inr (by cases fuel' <;> rfl)
      | succ count => exact .inl rfl
  | succ fuel ih =>
    refine ⟨?_, ?_⟩
    · intro fuel' p hle hlen
      obtain ⟨fuel', rfl⟩ : ∃ m, fuel' = m + 1 := ⟨fuel' - 1, by omega⟩
      cases p with
      | nil => exact .inl rfl
      | cons kind body =>
        simp only [cons_append, parseFrame]
        split_ifs
        · exact (parseLine_extends body q).bind fun _ _ _ => .inr rfl
        · exact (parseLine_extends body q).bind fun _ _ _ => .inr rfl
        · exact (parseNumber_extends _ body q).bind fun _ _ _ => .inr rfl
        · exact (parseNumber_extends _ body q).bind fun len n hn =>
            parseBulkBody_extends (kind :: body) q n len hlen (parseNumber_bound hn)
        · refine (parseNumber_extends _ body q).bind fun count n hn => ?_
          have hb : n ≤ (kind :: body).length := parseNumber_bound hn
          have hdrop : (kind :: (body ++ q)).drop n = (kind :: body).drop n ++ q := by
            rw [← cons_append, drop_append_of_le_length hb]
          rw [hdrop]
          refine (ih.2 fuel' count.toNat _ (by omega) ?_).bind fun _ _ _ => .inr rfl
          rw [← hdrop, length_drop]
          simp only [cons_append] at hlen
          omega
        · exact .inr rfl
    · intro fuel' count p hle hlen
      obtain ⟨fuel', rfl⟩ : ∃ m, fuel' = m + 1 := ⟨fuel' - 1, by omega⟩
      cases count with
      | zero => exact .inr rfl
      | succ count =>
        refine (ih.1 fuel' p (by omega) hlen).bind fun item n hn => ?_
        have hb := (parse_bound fuel).1 _ _ _ hn
        rw [drop_append_of_le_length hb]
        refine (ih.2 fuel' count _ (by omega) ?_).bind fun _ _ _ => .inr rfl
        rw [length_append, length_drop] at *
        omega

theorem decode_extends (p q : Bytes) (hlen : (p ++ q).length < 2 ^ 63) :
    (decode p).Extends (decode (p ++ q)) :=
  (parse_extends (p.length + 1) q).1 _ p (by simp) hlen

theorem decode_torn {f : Frame} (hf : Resp2Frame f) (hlen : (encode .resp2 f).length < 2 ^ 63)
    {p q : Bytes} (hpq : encode .resp2 f = p ++ q) (hq : q ≠ []) : decode p = .incomplete := by
  rcases decode_extends p q (by rw [← hpq]; exact hlen) with h | h
  · exact h
  · have hwhole := decode_encode hf []
    rw [append_nil, hpq] at hwhole
    rw [hwhole] at h
    have hbound := (parse_bound _).1 _ _ _ h.symm
    have hpos : 0 < q.length := length_pos_iff.mpr hq
    rw [length_append] at hbound
    omega

end RocketMem
