import RocketMem.Protocol.Stream

namespace RocketMem

open List Parsed

theorem findCrlf_eq_some {p : Bytes} {n : Nat} (h : findCrlf p = some n) :
    ∃ rest, p = p.take n ++ crlf ++ rest ∧ (p.take n).length = n := by
  induction p generalizing n with
  | nil => cases h
  | cons a rest ih =>
    cases rest with
    | nil => cases h
    | cons b rest =>
      rw [findCrlf] at h
      split at h
      · next hab =>
        cases h
        exact ⟨rest, by simp [crlf, hab], rfl⟩
      · obtain ⟨m, hm, rfl⟩ := Option.map_eq_some_iff.mp h
        obtain ⟨tail, htail, hlen⟩ := ih hm
        refine ⟨tail, ?_, by rw [take_succ_cons, length_cons, hlen]⟩
        rw [take_succ_cons, cons_append, cons_append, ← htail]

theorem parseLine_eq_ok {p text : Bytes} {n : Nat} (h : parseLine p = .ok text n) :
    ∃ rest, p = text ++ crlf ++ rest ∧ n = text.length + 3 ∧ findCrlf text = none ∧
      validUtf8 text = true := by
  obtain ⟨ht, hu⟩ := parseLine_text h
  unfold parseLine at h
  split at h
  · cases h
  · next m hm =>
    obtain ⟨rest, hp, hlen⟩ := findCrlf_eq_some hm
    split at h
    · cases h
      exact ⟨rest, hp, by omega, ht, hu⟩
    · cases h

theorem parseNumber_eq_ok {e : DecodeError} {p : Bytes} {i : Int} {n : Nat}
    (h : parseNumber e p = .ok i n) :
    ∃ text rest, p = text ++ crlf ++ rest ∧ n = text.length + 3 ∧ findCrlf text = none ∧
      validUtf8 text = true ∧ parseI64 text = some i := by
  obtain ⟨text, m, hline, h⟩ := bind_eq_ok.mp h
  obtain ⟨rest, hp, hm, ht, hu⟩ := parseLine_eq_ok hline
  split at h
  · next hi =>
    cases h
    exact ⟨text, rest, hp, hm, ht, hu, hi⟩
  · cases h

theorem parseNumber_append {text : Bytes} {i : Int} (ht : findCrlf text = none)
    (hu : validUtf8 text = true) (hi : parseI64 text = some i) (e : DecodeError) (rest : Bytes) :
    parseNumber e (text ++ crlf ++ rest) = .ok i (text.length + 3) := by
  rw [parseNumber, parseLine_append text rest ht hu, bind_ok, hi]

theorem drop_headerLine (kind : UInt8) (text rest : Bytes) :
    (headerLine kind text ++ rest).drop (text.length + 3) = rest := by
  rw [← headerLine_length kind text, drop_left]

section

variable {p : Bytes} {headerLen : Nat} {len : Int}

theorem parseBulkBody_nonneg (hfits : p.length < 2 ^ 63 - 1) (hheader : headerLen ≤ p.length)
    (hlen : InI64 len) (hpos : 0 ≤ len) :
    parseBulkBody p headerLen len =
      if p.length < headerLen + len.toNat + 2 then .incomplete
      else .ok (.bulk ((p.drop headerLen).take len.toNat)) (headerLen + len.toNat + 2) := by
  have hmax : len ≤ i64Max := hlen.2
  unfold i64Max at hmax
  have hne : ¬ len = -1 := by omega
  have hcast : (len % 2 ^ 64).toNat = len.toNat := by omega
  simp only [parseBulkBody, if_neg hne, hcast]
  rw [Nat.mod_eq_of_lt (by omega : headerLen + len.toNat + 2 < 2 ^ 64),
    Nat.mod_eq_of_lt (by omega : headerLen + len.toNat < 2 ^ 64)]
  split
  · rfl
  · rw [if_neg (by omega)]

/-- Below -1 the slice panics exactly when `header_len + len + 2` overflows, which a build with
overflow checks panics on; every other such length waits for more bytes than can come. -/
theorem parseBulkBody_negative (hfits : p.length < 2 ^ 63 - 1) (hheader : headerLen ≤ p.length)
    (hlen : InI64 len) (hneg : len < -1) :
    parseBulkBody p headerLen len =
      if 2 ^ 64 ≤ headerLen + (len % 2 ^ 64).toNat + 2 then .panic else .incomplete := by
  have hmin : i64Min ≤ len := hlen.1
  unfold i64Min at hmin
  have hne : ¬ len = -1 := by omega
  have hcast : ((len % 2 ^ 64).toNat : Int) = 2 ^ 64 + len := by omega
  simp only [parseBulkBody, if_neg hne]
  generalize (len % 2 ^ 64).toNat = l at hcast ⊢
  by_cases hover : 2 ^ 64 ≤ headerLen + l + 2
  · rw [if_pos hover, if_neg (by omega), if_pos (by omega)]
  · rw [if_neg hover, if_pos (by omega)]

end

theorem numberHeader {e : DecodeError} (kind : UInt8) {body : Bytes} {i : Int} {n : Nat}
    (h : parseNumber e body = .ok i n) :
    ∃ text rest, kind :: body = headerLine kind text ++ rest ∧ n = text.length + 3 ∧
      findCrlf text = none ∧ validUtf8 text = true ∧ parseI64 text = some i := by
  obtain ⟨text, rest, rfl, hn, ht, hu, hi⟩ := parseNumber_eq_ok h
  exact ⟨text, rest, (headerLine_append kind text rest).symm, hn, ht, hu, hi⟩

theorem parseFrame_bulk_header {text rest : Bytes} {len : Int} (ht : findCrlf text = none)
    (hu : validUtf8 text = true) (hlen : parseI64 text = some len) (fuel : Nat) :
    parseFrame (fuel + 1) (headerLine 36 text ++ rest) =
      parseBulkBody (headerLine 36 text ++ rest) (text.length + 3) len := by
  rw [headerLine_append, parseFrame_bulk, parseNumber_append ht hu hlen, bind_ok]

theorem parseFrame_array_header {text rest : Bytes} {count : Int} (ht : findCrlf text = none)
    (hu : validUtf8 text = true) (hcount : parseI64 text = some count) (fuel : Nat) :
    parseFrame (fuel + 1) (headerLine 42 text ++ rest) =
      (parseItems fuel count.toNat rest).bind fun items m =>
        .ok (.array items) (text.length + 3 + m) := by
  have hdrop := drop_headerLine 42 text rest
  rw [headerLine_append] at hdrop ⊢
  rw [parseFrame_array, parseNumber_append ht hu hcount, bind_ok, hdrop]

section

/-- A complete frame at the front of a buffer, and how many bytes the parser takes it to have. The
two bytes behind the payload of a bulk string are taken, whatever they are. -/
inductive FrameAt (fuel : Nat) : Bytes → Frame → Nat → Prop
  | simple {text rest : Bytes} (ht : findCrlf text = none) (hu : validUtf8 text = true) :
      FrameAt fuel (headerLine 43 text ++ rest) (.simple text) (text.length + 3)
  | error {text rest : Bytes} (ht : findCrlf text = none) (hu : validUtf8 text = true) :
      FrameAt fuel (headerLine 45 text ++ rest) (.error text) (text.length + 3)
  | integer {text rest : Bytes} {n : Int} (ht : findCrlf text = none)
      (hu : validUtf8 text = true) (hn : parseI64 text = some n) :
      FrameAt fuel (headerLine 58 text ++ rest) (.integer n) (text.length + 3)
  | null {text rest : Bytes} (ht : findCrlf text = none) (hu : validUtf8 text = true)
      (hlen : parseI64 text = some (-1)) :
      FrameAt fuel (headerLine 36 text ++ rest) .null (text.length + 3)
  | bulk {text payload rest : Bytes} {a b : UInt8} (ht : findCrlf text = none)
      (hu : validUtf8 text = true) (hlen : parseI64 text = some (payload.length : Int)) :
      FrameAt fuel (headerLine 36 text ++ (payload ++ a :: b :: rest)) (.bulk payload)
        (text.length + 3 + payload.length + 2)
  | array {text rest : Bytes} {count : Int} {items : List Frame} {m : Nat}
      (ht : findCrlf text = none) (hu : validUtf8 text = true)
      (hcount : parseI64 text = some count)
      (hitems : parseItems fuel count.toNat rest = .ok items m) :
      FrameAt fuel (headerLine 42 text ++ rest) (.array items) (text.length + 3 + m)

variable {p : Bytes} {f : Frame} {n fuel : Nat}

theorem frameAt_of_bulkBody {text rest : Bytes} {len : Int} (ht : findCrlf text = none)
    (hu : validUtf8 text = true) (hlen : parseI64 text = some len)
    (hfits : (headerLine 36 text ++ rest).length < 2 ^ 63 - 1)
    (h : parseBulkBody (headerLine 36 text ++ rest) (text.length + 3) len = .ok f n) :
    FrameAt fuel (headerLine 36 text ++ rest) f n := by
  have hheader : text.length + 3 ≤ (headerLine 36 text ++ rest).length := by
    rw [length_append, headerLine_length]
    omega
  have hi := inI64_of_parseI64 hlen
  rcases lt_trichotomy len (-1) with hneg | rfl | hpos
  · rw [parseBulkBody_negative hfits hheader hi hneg] at h
    split at h <;> cases h
  · rw [parseBulkBody, if_pos rfl] at h
    cases h
    exact .null ht hu hlen
  · rw [parseBulkBody_nonneg hfits hheader hi (by omega), drop_headerLine] at h
    split at h
    · cases h
    · next hlong =>
      rw [length_append, headerLine_length] at hlong
      obtain ⟨a, b, hab⟩ : ∃ a b, rest.drop len.toNat = a :: b :: rest.drop (len.toNat + 2) := by
        refine ⟨rest.get ⟨len.toNat, by omega⟩, rest.get ⟨len.toNat + 1, by omega⟩, ?_⟩
        rw [drop_eq_getElem_cons (by omega), drop_eq_getElem_cons (by omega)]
        rfl
      have hsplit : rest = rest.take len.toNat ++ a :: b :: rest.drop (len.toNat + 2) := by
        rw [← hab, take_append_drop]
      have hpayload : (rest.take len.toNat).length = len.toNat := by
        rw [length_take]
        omega
      have hread : parseI64 text = some ((rest.take len.toNat).length : Int) := by
        rw [hpayload, hlen, Int.toNat_of_nonneg (by omega)]
      have hframe : FrameAt fuel (headerLine 36 text ++
          (rest.take len.toNat ++ a :: b :: rest.drop (len.toNat + 2))) _ _ := .bulk ht hu hread
      rw [← hsplit, hpayload] at hframe
      cases h
      exact hframe

theorem frameAt_of_parseFrame (hfits : p.length < 2 ^ 63 - 1)
    (h : parseFrame (fuel + 1) p = .ok f n) : FrameAt fuel p f n := by
  cases p with
  | nil => cases h
  | cons kind body =>
    simp only [parseFrame] at h
    split_ifs at h with hsimple herror hinteger hbulk harray
    · obtain ⟨text, m, hline, h⟩ := bind_eq_ok.mp h
      obtain ⟨rest, rfl, rfl, ht, hu⟩ := parseLine_eq_ok hline
      cases h
      rw [hsimple, ← headerLine_append]
      exact .simple ht hu
    · obtain ⟨text, m, hline, h⟩ := bind_eq_ok.mp h
      obtain ⟨rest, rfl, rfl, ht, hu⟩ := parseLine_eq_ok hline
      cases h
      rw [herror, ← headerLine_append]
      exact .error ht hu
    · obtain ⟨i, m, hnumber, h⟩ := bind_eq_ok.mp h
      obtain ⟨text, rest, hp, rfl, ht, hu, hi⟩ := numberHeader kind hnumber
      cases h
      rw [hp, hinteger]
      exact .integer ht hu hi
    · obtain ⟨len, m, hnumber, h⟩ := bind_eq_ok.mp h
      obtain ⟨text, rest, hp, rfl, ht, hu, hi⟩ := numberHeader kind hnumber
      rw [hp, hbulk] at hfits h ⊢
      exact frameAt_of_bulkBody ht hu hi hfits h
    · obtain ⟨count, m, hnumber, h⟩ := bind_eq_ok.mp h
      obtain ⟨text, rest, hp, rfl, ht, hu, hi⟩ := numberHeader kind hnumber
      obtain ⟨items, j, hitems, h⟩ := bind_eq_ok.mp h
      cases h
      rw [hp, drop_headerLine] at hitems
      rw [hp, harray]
      exact .array ht hu hi hitems

theorem FrameAt.parseFrame (hfits : p.length < 2 ^ 63 - 1) (h : FrameAt fuel p f n) :
    parseFrame (fuel + 1) p = .ok f n := by
  cases h with
  | @simple text rest ht hu =>
    rw [headerLine_append, RocketMem.parseFrame, if_pos rfl, parseLine_append text rest ht hu]
    rfl
  | @error text rest ht hu =>
    rw [headerLine_append, RocketMem.parseFrame, if_neg (by decide), if_pos rfl,
      parseLine_append text rest ht hu]
    rfl
  | @integer text rest n ht hu hn =>
    rw [headerLine_append, RocketMem.parseFrame, if_neg (by decide), if_neg (by decide),
      if_pos rfl, parseNumber_append ht hu hn]
    rfl
  | null ht hu hlen => rw [parseFrame_bulk_header ht hu hlen, parseBulkBody, if_pos rfl]
  | @bulk text payload rest a b ht hu hlen =>
    have hlength : (headerLine 36 text ++ (payload ++ a :: b :: rest)).length =
        text.length + 3 + payload.length + 2 + rest.length := by
      rw [length_append, headerLine_length, length_append, length_cons, length_cons]
      omega
    rw [parseFrame_bulk_header ht hu hlen,
      parseBulkBody_nonneg hfits (by omega) (inI64_of_parseI64 hlen) (by omega),
      if_neg (by omega), drop_headerLine, Int.toNat_natCast, take_left]
  | array ht hu hcount hitems =>
    rw [parseFrame_array_header ht hu hcount, hitems, bind_ok]

end

section

/-- With `pending` frames to read off the buffer, the parser comes to a `bad` place. Whatever
stands before it is complete. -/
inductive Meets (bad : Bytes → Prop) : Nat → Bytes → Prop
  | here {pending : Nat} {p : Bytes} (h : bad p) : Meets bad (pending + 1) p
  | line {pending : Nat} {kind : UInt8} {text rest : Bytes} (hkind : kind = 43 ∨ kind = 45)
      (ht : findCrlf text = none) (hu : validUtf8 text = true) (h : Meets bad pending rest) :
      Meets bad (pending + 1) (headerLine kind text ++ rest)
  | integer {pending : Nat} {text rest : Bytes} {n : Int} (ht : findCrlf text = none)
      (hu : validUtf8 text = true) (hn : parseI64 text = some n) (h : Meets bad pending rest) :
      Meets bad (pending + 1) (headerLine 58 text ++ rest)
  | null {pending : Nat} {text rest : Bytes} (ht : findCrlf text = none)
      (hu : validUtf8 text = true) (hlen : parseI64 text = some (-1))
      (h : Meets bad pending rest) : Meets bad (pending + 1) (headerLine 36 text ++ rest)
  -- the two bytes behind the payload are skipped, whatever they are
  | bulk {pending : Nat} {text payload rest : Bytes} {a b : UInt8} (ht : findCrlf text = none)
      (hu : validUtf8 text = true) (hlen : parseI64 text = some (payload.length : Int))
      (h : Meets bad pending rest) :
      Meets bad (pending + 1) (headerLine 36 text ++ (payload ++ a :: b :: rest))
  | array {pending : Nat} {text rest : Bytes} {count : Int} (ht : findCrlf text = none)
      (hu : validUtf8 text = true) (hcount : parseI64 text = some count)
      (h : Meets bad (count.toNat + pending) rest) :
      Meets bad (pending + 1) (headerLine 42 text ++ rest)

variable {bad : Bytes → Prop}

theorem drop_bulk (text payload rest : Bytes) (a b : UInt8) :
    (headerLine 36 text ++ (payload ++ a :: b :: rest)).drop
      (text.length + 3 + payload.length + 2) = rest := by
  rw [Nat.add_assoc, ← drop_drop, drop_headerLine, ← drop_drop, drop_left]
  rfl

theorem length_of_header {kind : UInt8} {text rest : Bytes}
    (hfits : (headerLine kind text ++ rest).length < 2 ^ 63 - 1) : rest.length < 2 ^ 63 - 1 := by
  rw [length_append] at hfits
  omega

theorem length_of_drop {p : Bytes} (hfits : p.length < 2 ^ 63 - 1) (n : Nat) :
    (p.drop n).length < 2 ^ 63 - 1 := by
  rw [length_drop]
  omega

theorem meets_skips (fuel : Nat) :
    (∀ p f n, p.length < 2 ^ 63 - 1 → parseFrame fuel p = .ok f n →
      ∀ k, Meets bad k (p.drop n) → Meets bad (k + 1) p) ∧
    (∀ count p fs n, p.length < 2 ^ 63 - 1 → parseItems fuel count p = .ok fs n →
      ∀ k, Meets bad k (p.drop n) → Meets bad (count + k) p) := by
  induction fuel with
  | zero =>
    refine ⟨?_, ?_⟩
    · intro p f n _ h
      cases p <;> cases h
    · intro count p fs n _ h k hk
      cases count <;> cases h
      rwa [Nat.zero_add]
  | succ fuel ih =>
    refine ⟨?_, ?_⟩
    · intro p f n hfits h k hk
      cases frameAt_of_parseFrame hfits h with
      | simple ht hu =>
        rw [drop_headerLine] at hk
        exact .line (.inl rfl) ht hu hk
      | error ht hu =>
        rw [drop_headerLine] at hk
        exact .line (.inr rfl) ht hu hk
      | integer ht hu hn =>
        rw [drop_headerLine] at hk
        exact .integer ht hu hn hk
      | null ht hu hlen =>
        rw [drop_headerLine] at hk
        exact .null ht hu hlen hk
      | bulk ht hu hlen =>
        rw [drop_bulk] at hk
        exact .bulk ht hu hlen hk
      | array ht hu hcount hitems =>
        rw [← drop_drop, drop_headerLine] at hk
        exact .array ht hu hcount (ih.2 _ _ _ _ (length_of_header hfits) hitems k hk)
    · intro count p fs n hfits h k hk
      cases count with
      | zero =>
        cases h
        rwa [Nat.zero_add]
      | succ count =>
        obtain ⟨item, m, hframe, h⟩ := bind_eq_ok.mp h
        obtain ⟨items, j, hitems, h⟩ := bind_eq_ok.mp h
        cases h
        rw [← drop_drop] at hk
        rw [Nat.succ_add]
        exact ih.1 _ _ _ hfits hframe _ (ih.2 _ _ _ _ (length_of_drop hfits m) hitems k hk)

end

structure EndsAt (ends : {α : Type} → Parsed α → Prop) (bad : Bytes → Prop) : Prop where
  bind : ∀ {α β : Type} {r : Parsed α} (f : α → Nat → Parsed β), ends r → ends (r.bind f)
  bad : ∀ {p : Bytes} (fuel : Nat), p.length < 2 ^ 63 - 1 → bad p → ends (parseFrame (fuel + 1) p)

structure EndsOnlyAt (ends : {α : Type} → Parsed α → Prop) (bad : Bytes → Prop) : Prop where
  bind : ∀ {α β : Type} {r : Parsed α} {f : α → Nat → Parsed β}, ends (r.bind f) →
    ends r ∨ ∃ a n, r = .ok a n ∧ ends (f a n)
  not_ok : ∀ {α : Type} (a : α) (n : Nat), ¬ ends (.ok a n)
  not_incomplete : ∀ {α : Type}, ¬ ends (.incomplete : Parsed α)
  line : ∀ {kind : UInt8} {body : Bytes}, kind = 43 ∨ kind = 45 → ends (parseLine body) →
    bad (kind :: body)
  number : ∀ {kind : UInt8} {e : DecodeError} {body : Bytes}, kind = 58 ∨ kind = 36 ∨ kind = 42 →
    ends (parseNumber e body) → bad (kind :: body)
  bulk : ∀ {text rest : Bytes} {len : Int},
    (headerLine 36 text ++ rest).length < 2 ^ 63 - 1 → findCrlf text = none →
    validUtf8 text = true → parseI64 text = some len →
    ends (parseBulkBody (headerLine 36 text ++ rest) (text.length + 3) len) →
    bad (headerLine 36 text ++ rest)
  unknown : ∀ {kind : UInt8} {body : Bytes}, kind ∉ [43, 45, 58, 36, 42] →
    ends (.invalid (.unknownType kind) : Parsed Frame) → bad (kind :: body)

variable {ends : {α : Type} → Parsed α → Prop} {bad : Bytes → Prop}

theorem EndsOnlyAt.meets (h : EndsOnlyAt ends bad) (fuel : Nat) :
    (∀ p, p.length < 2 ^ 63 - 1 → ends (parseFrame fuel p) → ∀ k, Meets bad (k + 1) p) ∧
    (∀ count p, p.length < 2 ^ 63 - 1 → ends (parseItems fuel count p) →
      ∀ k, Meets bad (count + k) p) := by
  induction fuel with
  | zero =>
    refine ⟨?_, ?_⟩
    · intro p _ hends
      cases p <;> exact absurd hends h.not_incomplete
    · intro count p _ hends
      cases count with
      | zero => exact absurd hends (h.not_ok _ _)
      | succ count => exact absurd hends h.not_incomplete
  | succ fuel ih =>
    refine ⟨?_, ?_⟩
    · intro p hfits hends k
      cases p with
      | nil => exact absurd hends h.not_incomplete
      | cons kind body =>
        simp only [parseFrame] at hends
        split_ifs at hends with hsimple herror hinteger hbulk harray
        · rcases h.bind hends with hline | ⟨text, n, -, hok⟩
          · exact .here (h.line (.inl hsimple) hline)
          · exact absurd hok (h.not_ok _ _)
        · rcases h.bind hends with hline | ⟨text, n, -, hok⟩
          · exact .here (h.line (.inr herror) hline)
          · exact absurd hok (h.not_ok _ _)
        · rcases h.bind hends with hnumber | ⟨i, n, -, hok⟩
          · exact .here (h.number (.inl hinteger) hnumber)
          · exact absurd hok (h.not_ok _ _)
        · rcases h.bind hends with hnumber | ⟨len, n, hnumber, hbody⟩
          · exact .here (h.number (.inr (.inl hbulk)) hnumber)
          · obtain ⟨text, rest, hp, rfl, ht, hu, hi⟩ := numberHeader kind hnumber
            rw [hp, hbulk] at hfits hbody ⊢
            exact .here (h.bulk hfits ht hu hi hbody)
        · rcases h.bind hends with hnumber | ⟨count, n, hnumber, hrest⟩
          · exact .here (h.number (.inr (.inr harray)) hnumber)
          · obtain ⟨text, rest, hp, rfl, ht, hu, hi⟩ := numberHeader kind hnumber
            rw [hp, harray] at hfits ⊢
            rw [hp, drop_headerLine] at hrest
            rcases h.bind hrest with hitems | ⟨items, j, -, hok⟩
            · exact .array ht hu hi (ih.2 _ _ (length_of_header hfits) hitems k)
            · exact absurd hok (h.not_ok _ _)
        · exact .here (h.unknown (by simp [hsimple, herror, hinteger, hbulk, harray]) hends)
    · intro count p hfits hends k
      cases count with
      | zero => exact absurd hends (h.not_ok _ _)
      | succ count =>
        rw [Nat.succ_add]
        rcases h.bind hends with hframe | ⟨item, n, hframe, hrest⟩
        · exact ih.1 _ hfits hframe _
        · rcases h.bind hrest with hitems | ⟨items, j, -, hok⟩
          · exact (meets_skips fuel).1 _ _ _ hfits hframe _
              (ih.2 _ _ (length_of_drop hfits n) hitems k)
          · exact absurd hok (h.not_ok _ _)

/-- The parser gets past nothing but what stands before the bad place. Every frame takes a byte, so
fuel for each byte is enough. -/
theorem EndsAt.reached (h : EndsAt ends bad) (fuel : Nat) :
    (∀ p k, p.length < fuel → p.length < 2 ^ 63 - 1 → Meets bad (k + 1) p →
      ends (parseFrame fuel p) ∨
        ∃ f n, parseFrame fuel p = .ok f n ∧ 0 < n ∧ Meets bad k (p.drop n)) ∧
    (∀ count p k, p.length + 1 < fuel → p.length < 2 ^ 63 - 1 → Meets bad (count + k) p →
      ends (parseItems fuel count p) ∨
        ∃ fs n, parseItems fuel count p = .ok fs n ∧ Meets bad k (p.drop n)) := by
  induction fuel with
  | zero => exact ⟨fun p k hfuel => absurd hfuel (Nat.not_lt_zero _),
      fun count p k hfuel => absurd hfuel (Nat.not_lt_zero _)⟩
  | succ fuel ih =>
    have hnext {p : Bytes} {f : Frame} {n k : Nat} (hfits : p.length < 2 ^ 63 - 1)
        (hframe : FrameAt fuel p f n) (hpos : 0 < n) (hk : Meets bad k (p.drop n)) :
        ∃ f n, parseFrame (fuel + 1) p = .ok f n ∧ 0 < n ∧ Meets bad k (p.drop n) :=
      ⟨f, n, hframe.parseFrame hfits, hpos, hk⟩
    refine ⟨?_, ?_⟩
    · intro p k hfuel hfits hmeets
      cases hmeets with
      | here hbad => exact .inl (h.bad fuel hfits hbad)
      | line hkind ht hu hk =>
        right
        rcases hkind with rfl | rfl
        · exact hnext hfits (.simple ht hu) (by omega) (by rwa [drop_headerLine])
        · exact hnext hfits (.error ht hu) (by omega) (by rwa [drop_headerLine])
      | integer ht hu hn hk =>
        exact .inr (hnext hfits (.integer ht hu hn) (by omega) (by rwa [drop_headerLine]))
      | null ht hu hlen hk =>
        exact .inr (hnext hfits (.null ht hu hlen) (by omega) (by rwa [drop_headerLine]))
      | bulk ht hu hlen hk =>
        exact .inr (hnext hfits (.bulk ht hu hlen) (by omega) (by rwa [drop_bulk]))
      | @array _ text rest count ht hu hcount hk =>
        have hshort : rest.length + 1 < fuel := by
          rw [length_append, headerLine_length] at hfuel
          omega
        rcases ih.2 count.toNat rest k hshort (length_of_header hfits) hk with
          hends | ⟨items, m, hitems, hk⟩
        · left
          rw [parseFrame_array_header ht hu hcount]
          exact h.bind _ hends
        · right
          refine hnext hfits (.array ht hu hcount hitems) (by omega) ?_
          rwa [← drop_drop, drop_headerLine]
    · intro count p k hfuel hfits hmeets
      cases count with
      | zero => exact .inr ⟨[], 0, rfl, by rwa [Nat.zero_add] at hmeets⟩
      | succ count =>
        rw [Nat.succ_add] at hmeets
        rw [parseItems]
        rcases ih.1 p (count + k) (by omega) hfits hmeets with hends | ⟨f, n, hframe, hpos, hk⟩
        · exact .inl (h.bind _ hends)
        · have hbound := (parse_bound fuel).1 _ _ _ hframe
          have hshort : (p.drop n).length + 1 < fuel := by
            rw [length_drop]
            omega
          rw [hframe, bind_ok]
          rcases ih.2 count _ k hshort (length_of_drop hfits n) hk with
            hends | ⟨fs, m, hitems, hk⟩
          · exact .inl (h.bind _ hends)
          · right
            rw [hitems]
            refine ⟨f :: fs, n + m, rfl, ?_⟩
            rwa [← drop_drop]

theorem EndsOnlyAt.decode (h : EndsOnlyAt ends bad) {buf : Bytes}
    (hfits : buf.length < 2 ^ 63 - 1) (hends : ends (decode buf)) : Meets bad 1 buf :=
  (h.meets _).1 buf hfits hends 0

theorem EndsAt.decode (h : EndsAt ends bad) {buf : Bytes} (hfits : buf.length < 2 ^ 63 - 1)
    (hmeets : Meets bad 1 buf) : ends (decode buf) := by
  rcases (h.reached _).1 buf 0 (Nat.lt_succ_self _) hfits hmeets with hends | ⟨f, n, -, -, hzero⟩
  · exact hends
  · cases hzero

end RocketMem
