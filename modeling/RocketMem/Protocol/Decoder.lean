import RocketMem.Framework.Incremental
import RocketMem.Protocol.Meets

namespace RocketMem

open List Parsed

inductive DecodeFailure where
  | invalidData (e : DecodeError)
  | panic
  deriving DecidableEq, Repr

/-- `Decoder::decode` on `src`: what it returns and what is left in the buffer. -/
def RespCodec.decode (src : Bytes) : DecodeResult Frame DecodeFailure × Bytes :=
  match RocketMem.decode src with
  | .ok frame consumed => (.item frame, src.drop consumed)
  | .incomplete => (.wait, src)
  | .invalid e => (.fail (.invalidData e), src)
  | .panic => (.fail .panic, src)

theorem parseLine_pos {p t : Bytes} {n : Nat} (h : parseLine p = .ok t n) : 0 < n := by
  unfold parseLine at h
  split at h
  · cases h
  · split at h
    · cases h
      omega
    · cases h

theorem parseNumber_pos {e : DecodeError} {p : Bytes} {i : Int} {n : Nat}
    (h : parseNumber e p = .ok i n) : 0 < n := by
  obtain ⟨line, m, hline, h⟩ := bind_eq_ok.mp h
  split at h
  · cases h
    exact parseLine_pos hline
  · cases h

theorem parseBulkBody_ge {p : Bytes} {headerLen : Nat} {len : Int} {f : Frame} {n : Nat}
    (hfits : p.length < 2 ^ 63) (h : parseBulkBody p headerLen len = .ok f n) : headerLen ≤ n := by
  unfold parseBulkBody at h
  split at h
  · cases h
    exact Nat.le_refl _
  · dsimp only at h
    split at h
    · cases h
    · split at h
      · cases h
      · cases h
        omega

theorem parseFrame_pos {fuel : Nat} {p : Bytes} {f : Frame} {n : Nat} (hfits : p.length < 2 ^ 63)
    (h : parseFrame fuel p = .ok f n) : 0 < n := by
  cases p with
  | nil => cases fuel <;> cases h
  | cons kind body =>
    cases fuel with
    | zero => cases h
    | succ fuel =>
      simp only [parseFrame] at h
      split_ifs at h
      · obtain ⟨t, m, hline, h⟩ := bind_eq_ok.mp h
        cases h
        exact parseLine_pos hline
      · obtain ⟨t, m, hline, h⟩ := bind_eq_ok.mp h
        cases h
        exact parseLine_pos hline
      · obtain ⟨i, m, hnumber, h⟩ := bind_eq_ok.mp h
        cases h
        exact parseNumber_pos hnumber
      · obtain ⟨len, m, hnumber, h⟩ := bind_eq_ok.mp h
        exact (parseNumber_pos hnumber).trans_le (parseBulkBody_ge hfits h)
      · obtain ⟨count, m, hnumber, h⟩ := bind_eq_ok.mp h
        obtain ⟨items, k, -, h⟩ := bind_eq_ok.mp h
        cases h
        exact Nat.add_pos_left (parseNumber_pos hnumber) k

theorem decode_pos {p : Bytes} {f : Frame} {n : Nat} (hfits : p.length < 2 ^ 63)
    (h : decode p = .ok f n) : 0 < n :=
  parseFrame_pos hfits h

theorem parseLine_take {p t : Bytes} {n k : Nat} (h : parseLine p = .ok t n) (hk : n ≤ k + 1) :
    parseLine (p.take k) = .ok t n := by
  obtain ⟨rest, rfl, rfl, ht, hu⟩ := parseLine_eq_ok h
  have hshort : (t ++ crlf).length ≤ k := by
    rw [length_append, show crlf.length = 2 from rfl]
    omega
  rw [take_append, take_of_length_le hshort]
  exact parseLine_append t _ ht hu

theorem parseNumber_take {e : DecodeError} {p : Bytes} {i : Int} {n k : Nat}
    (h : parseNumber e p = .ok i n) (hk : n ≤ k + 1) : parseNumber e (p.take k) = .ok i n := by
  obtain ⟨text, rest, rfl, rfl, ht, hu, hi⟩ := parseNumber_eq_ok h
  have hshort : (text ++ crlf).length ≤ k := by
    rw [length_append, show crlf.length = 2 from rfl]
    omega
  rw [take_append, take_of_length_le hshort]
  exact parseNumber_append ht hu hi e _

theorem parseBulkBody_take {p : Bytes} {headerLen : Nat} {len : Int} {f : Frame} {n k : Nat}
    (hfits : p.length < 2 ^ 63) (h : parseBulkBody p headerLen len = .ok f n) (hk : n ≤ k) :
    parseBulkBody (p.take k) headerLen len = .ok f n := by
  unfold parseBulkBody at h ⊢
  by_cases hnull : len = -1
  · rw [if_pos hnull] at h ⊢
    exact h
  · rw [if_neg hnull] at h ⊢
    dsimp only at h ⊢
    generalize hl : (len % 2 ^ 64).toNat = l at h ⊢
    have hl64 : l < 2 ^ 64 := by omega
    split at h
    · cases h
    · next hlong =>
      split at h
      · cases h
      · next hstop =>
        cases h
        -- neither sum has wrapped, so the payload and the two bytes behind it are in front of `k`
        have hsum : (headerLen + l + 2) % 2 ^ 64 = headerLen + l + 2 := by omega
        rw [if_neg (by rw [length_take]; omega), if_neg (by rw [length_take]; omega),
          drop_take, take_take, min_eq_left (by omega)]

theorem parse_take (fuel : Nat) :
    (∀ p f n k fuel', p.length < 2 ^ 63 → parseFrame fuel p = .ok f n → n ≤ k → n < fuel' →
      parseFrame fuel' (p.take k) = .ok f n) ∧
    (∀ count p fs n k fuel', p.length < 2 ^ 63 → parseItems fuel count p = .ok fs n → n ≤ k →
      n + 1 < fuel' → parseItems fuel' count (p.take k) = .ok fs n) := by
  induction fuel with
  | zero =>
    refine ⟨?_, ?_⟩
    · intro p f n k fuel' _ h
      cases p <;> cases h
    · intro count p fs n k fuel' _ h _ _
      cases count with
      | zero =>
        cases h
        cases fuel' <;> rfl
      | succ count => cases h
  | succ fuel ih =>
    refine ⟨?_, ?_⟩
    · intro p f n k fuel' hfits h hk hfuel
      have hpos := parseFrame_pos hfits h
      obtain ⟨fuel', rfl⟩ : ∃ m, fuel' = m + 1 := ⟨fuel' - 1, by omega⟩
      obtain ⟨k, rfl⟩ : ∃ m, k = m + 1 := ⟨k - 1, by omega⟩
      cases p with
      | nil => cases h
      | cons kind body =>
        rw [take_succ_cons]
        simp only [parseFrame] at h ⊢
        split_ifs at h ⊢
        · obtain ⟨t, m, hline, h⟩ := bind_eq_ok.mp h
          cases h
          rw [parseLine_take hline hk, bind_ok]
        · obtain ⟨t, m, hline, h⟩ := bind_eq_ok.mp h
          cases h
          rw [parseLine_take hline hk, bind_ok]
        · obtain ⟨i, m, hnumber, h⟩ := bind_eq_ok.mp h
          cases h
          rw [parseNumber_take hnumber hk, bind_ok]
        · obtain ⟨len, m, hnumber, h⟩ := bind_eq_ok.mp h
          have hm := parseBulkBody_ge hfits h
          rw [parseNumber_take hnumber (hm.trans hk), bind_ok, ← take_succ_cons]
          exact parseBulkBody_take hfits h hk
        · obtain ⟨count, m, hnumber, h⟩ := bind_eq_ok.mp h
          obtain ⟨items, j, hitems, h⟩ := bind_eq_ok.mp h
          cases h
          obtain ⟨text, rest, -, hm, -⟩ := parseNumber_eq_ok hnumber
          have hrest : ((kind :: body).drop m).length < 2 ^ 63 := by
            rw [length_drop]
            omega
          rw [parseNumber_take hnumber (by omega), bind_ok, ← take_succ_cons,
            drop_take, ih.2 _ _ _ _ (k + 1 - m) fuel' hrest hitems (by omega) (by omega),
            bind_ok]
    · intro count p fs n k fuel' hfits h hk hfuel
      obtain ⟨fuel', rfl⟩ : ∃ m, fuel' = m + 1 := ⟨fuel' - 1, by omega⟩
      cases count with
      | zero =>
        cases h
        rfl
      | succ count =>
        obtain ⟨item, m, hitem, h⟩ := bind_eq_ok.mp h
        obtain ⟨items, j, hitems, h⟩ := bind_eq_ok.mp h
        cases h
        have hpos := parseFrame_pos hfits hitem
        have hrest : (p.drop m).length < 2 ^ 63 := by
          rw [length_drop]
          omega
        rw [parseItems, ih.1 _ _ _ k fuel' hfits hitem (by omega) (by omega), bind_ok,
          drop_take, ih.2 _ _ _ _ (k - m) fuel' hrest hitems (by omega) (by omega),
          bind_ok]

theorem decode_take {p : Bytes} {f : Frame} {n k : Nat} (hfits : p.length < 2 ^ 63)
    (h : decode p = .ok f n) (hk : n ≤ k) : decode (p.take k) = .ok f n := by
  have hbound : n ≤ p.length := (parse_bound _).1 _ _ _ h
  refine (parse_take _).1 _ _ _ _ _ hfits h hk ?_
  rw [length_take]
  omega

theorem respCodec_ok {src : Bytes} {f : Frame} {n : Nat} (h : decode src = .ok f n) :
    RespCodec.decode src = (.item f, src.drop n) := by
  rw [RespCodec.decode, h]

theorem respCodec_item {src : Bytes} {f : Frame} (h : (RespCodec.decode src).1 = .item f) :
    ∃ n, decode src = .ok f n ∧ (RespCodec.decode src).2 = src.drop n := by
  cases hdec : decode src with
  | ok frame n =>
    rw [respCodec_ok hdec] at h ⊢
    cases h
    exact ⟨n, rfl, rfl⟩
  | incomplete | invalid e | panic => simp [RespCodec.decode, hdec] at h

theorem respCodec_append (p q : Bytes) (hlen : (p ++ q).length < 2 ^ 63)
    (h : (RespCodec.decode p).1 ≠ .wait) :
    RespCodec.decode (p ++ q) = ((RespCodec.decode p).1, (RespCodec.decode p).2 ++ q) := by
  rcases decode_extends p q hlen with hwait | hsame
  · exact absurd (by rw [RespCodec.decode, hwait]) h
  · unfold RespCodec.decode
    rw [hsame]
    cases hdec : decode p with
    | ok frame n =>
      have hbound := (parse_bound _).1 _ _ _ hdec
      simp only [drop_append_of_le_length hbound]
    | incomplete => rfl
    | invalid e => rfl
    | panic => rfl

/-- The decoder of a connection. A buffer never holds more than `isize::MAX` bytes. -/
def respDecoder : IncrementalDecoder Frame UInt8 DecodeFailure where
  decode := RespCodec.decode
  bound := 2 ^ 63
  nil := rfl
  wait_keeps p h := by
    unfold RespCodec.decode at h ⊢
    cases hdec : decode p with
    | ok frame n => simp [hdec] at h
    | incomplete => rfl
    | invalid e => rfl
    | panic => rfl
  progress p f hlen h := by
    obtain ⟨n, hdec, hrest⟩ := respCodec_item h
    have hpos := decode_pos hlen hdec
    have hbound := (parse_bound _).1 _ _ _ hdec
    rw [hrest, length_drop]
    omega
  append := respCodec_append

/-- A stream of frames is read back as exactly these frames, and all of it is taken. -/
theorem drain_encoded {frames : List Frame} (h : ∀ f ∈ frames, Resp2Frame f) :
    respDecoder.drain (frames.flatMap (encode .resp2)) = ⟨frames, .waiting []⟩ := by
  refine IncrementalDecoder.drain_flatMap (fun f hf rest => ?_) encode_pos
  have hdec := respCodec_ok (decode_encode (h f hf) rest)
  rwa [drop_left] at hdec

theorem drain_encoded_nested :
    respDecoder.drain
        ([.bulk (txt "$3\r\n"), .array [.null, .array [.integer (-7), .simple (txt "OK")]]].flatMap
          (encode .resp2)) =
      ⟨[.bulk (txt "$3\r\n"), .array [.null, .array [.integer (-7), .simple (txt "OK")]]],
        .waiting []⟩ := by
  refine drain_encoded fun f hf => ?_
  have hinner : Resp2Frame (.array [.integer (-7), .simple (txt "OK")]) := by
    refine .array (by decide) fun g hg => ?_
    rcases mem_pair.mp hg with rfl | rfl
    · exact .integer (by decide)
    · exact .simple (by decide) (by decide)
  rcases mem_pair.mp hf with rfl | rfl
  · exact .bulk (by decide)
  · refine .array (by decide) fun g hg => ?_
    rcases mem_pair.mp hg with rfl | rfl
    · exact .null
    · exact hinner

/-- However a stream that fits a buffer is cut into reads, it gives the same frames and ends the
same way as in one piece; the decoder stops only where it waits, and waiting takes nothing. -/
theorem decode_any_chunks (chunks : List Bytes) (hfits : chunks.flatten.length < 2 ^ 63) :
    respDecoder.readAll chunks = respDecoder.drain chunks.flatten ∧
      (∀ rest, (respDecoder.drain chunks.flatten).ending = .waiting rest →
        (RespCodec.decode rest).1 = .wait) ∧
      ∀ src, (RespCodec.decode src).1 = .wait → (RespCodec.decode src).2 = src :=
  ⟨IncrementalDecoder.readAll_eq_drain hfits,
    fun _ => IncrementalDecoder.decode_of_drain_waiting hfits, respDecoder.wait_keeps⟩

theorem decode_split_header :
    respDecoder.readAll [txt "$2\r", txt "\nab\r", txt "\n:1\r\n$-2", txt "\r\n"] =
      respDecoder.drain (txt "$2\r\nab\r\n:1\r\n$-2\r\n") :=
  (decode_any_chunks [txt "$2\r", txt "\nab\r", txt "\n:1\r\n$-2", txt "\r\n"] (by decide)).1

def NegativeHeader (p : Bytes) : Prop :=
  ∃ text rest len, p = headerLine 36 text ++ rest ∧ findCrlf text = none ∧
    validUtf8 text = true ∧ parseI64 text = some len ∧ len < -1

/-- With `pending` frames to read off the buffer, one of its bulk headers that the parser comes to
gives a length below -1. Whatever stands before that header is complete. -/
def NegativeBulk : Nat → Bytes → Prop := Meets NegativeHeader

/-- `decode` comes back without a panic, and with an error on a bulk length below -1. -/
def DecodesSafely (buf : Bytes) : Prop :=
  decode buf ≠ .panic ∧ (NegativeBulk 1 buf → ∃ e, decode buf = .invalid e)

theorem parseFrame_negative {text rest : Bytes} {len : Int}
    (hfits : (headerLine 36 text ++ rest).length < 2 ^ 63 - 1) (ht : findCrlf text = none)
    (hu : validUtf8 text = true) (hlen : parseI64 text = some len) (hneg : len < -1) (fuel : Nat) :
    parseFrame (fuel + 1) (headerLine 36 text ++ rest) =
      if 2 ^ 64 ≤ text.length + 3 + (len % 2 ^ 64).toNat + 2 then .panic else .incomplete := by
  have hheader : text.length + 3 ≤ (headerLine 36 text ++ rest).length := by
    rw [length_append, headerLine_length]
    omega
  rw [parseFrame_bulk_header ht hu hlen,
    parseBulkBody_negative hfits hheader (inI64_of_parseI64 hlen) hneg]

def Parsed.Stuck {α : Type} (r : Parsed α) : Prop := r = .incomplete ∨ r = .panic

theorem stuck_endsAt : EndsAt Parsed.Stuck NegativeHeader where
  bind {α β r} f h := by
    rcases h with rfl | rfl
    · exact .inl rfl
    · exact .inr rfl
  bad {p} fuel hfits h := by
    obtain ⟨text, rest, len, rfl, ht, hu, hlen, hneg⟩ := h
    rw [parseFrame_negative hfits ht hu hlen hneg]
    split
    · exact .inr rfl
    · exact .inl rfl

theorem Parsed.bind_eq_panic {α β : Type} {r : Parsed α} {f : α → Nat → Parsed β} :
    r.bind f = .panic ↔ r = .panic ∨ ∃ a n, r = .ok a n ∧ f a n = .panic := by
  cases r <;> simp [bind]

theorem parseLine_ne_panic (p : Bytes) : parseLine p ≠ .panic := by
  unfold parseLine
  split
  · nofun
  · split <;> nofun

theorem parseNumber_ne_panic (e : DecodeError) (p : Bytes) : parseNumber e p ≠ .panic := by
  intro h
  rcases bind_eq_panic.mp h with h | ⟨text, n, -, h⟩
  · exact parseLine_ne_panic p h
  · split at h <;> cases h

theorem panic_endsOnlyAt : EndsOnlyAt (fun r => r = .panic) NegativeHeader where
  bind := bind_eq_panic.mp
  not_ok := nofun
  not_incomplete := nofun
  line _ h := absurd h (parseLine_ne_panic _)
  number _ h := absurd h (parseNumber_ne_panic _ _)
  unknown _ := nofun
  bulk {text rest len} hfits ht hu hlen h := by
    refine ⟨text, rest, len, rfl, ht, hu, hlen, ?_⟩
    by_contra hge
    rcases (by omega : len = -1 ∨ 0 ≤ len) with rfl | hpos
    · rw [parseBulkBody, if_pos rfl] at h
      cases h
    · have hheader : text.length + 3 ≤ (headerLine 36 text ++ rest).length := by
        rw [length_append, headerLine_length]
        omega
      rw [parseBulkBody_nonneg hfits hheader (inI64_of_parseI64 hlen) hpos] at h
      split at h <;> cases h

/-- Decoding is safe exactly on the buffers in which the parser comes to no bulk length
below -1. -/
theorem decodesSafely_iff (buf : Bytes) (hfits : buf.length < 2 ^ 63 - 1) :
    DecodesSafely buf ↔ ¬ NegativeBulk 1 buf := by
  refine ⟨fun h hneg => ?_, fun h => ⟨fun hpanic => ?_, fun hneg => absurd hneg h⟩⟩
  · obtain ⟨e, he⟩ := h.2 hneg
    rcases stuck_endsAt.decode hfits hneg with hstuck | hstuck
    · exact absurd (he.symm.trans hstuck) nofun
    · exact h.1 hstuck
  · exact h (panic_endsOnlyAt.decode hfits hpanic)

theorem decodesSafely_null : DecodesSafely (txt "$-1\r\n") ↔ ¬ NegativeBulk 1 (txt "$-1\r\n") :=
  decodesSafely_iff (txt "$-1\r\n") (by decide)

/-- The smallest length that panics, and one that waits forever. -/
theorem decode_negative_bulk :
    ¬ DecodesSafely (txt "$-2\r\n") ∧ decode (txt "$-2\r\n") = .panic ∧
      decode (txt "$-9\r\n") = .incomplete := by
  have hpanic : decode (headerLine 36 (txt "-2") ++ []) = .panic := by
    rw [decode, parseFrame_negative (by decide) rfl rfl rfl (by decide), if_pos (by decide)]
  have hwait : decode (headerLine 36 (txt "-9") ++ []) = .incomplete := by
    rw [decode, parseFrame_negative (by decide) rfl rfl rfl (by decide), if_neg (by decide)]
  exact ⟨fun h => h.1 hpanic, hpanic, hwait⟩

end RocketMem
