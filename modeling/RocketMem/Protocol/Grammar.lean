import RocketMem.Protocol.Decoder

namespace RocketMem

open List

mutual

inductive Spells : Frame → Bytes → Prop
  | simple {text : Bytes} (ht : findCrlf text = none) (hu : validUtf8 text = true) :
      Spells (.simple text) (headerLine 43 text)
  | error {text : Bytes} (ht : findCrlf text = none) (hu : validUtf8 text = true) :
      Spells (.error text) (headerLine 45 text)
  | integer {text : Bytes} {n : Int} (ht : findCrlf text = none) (hu : validUtf8 text = true)
      (hn : parseI64 text = some n) : Spells (.integer n) (headerLine 58 text)
  | null {text : Bytes} (ht : findCrlf text = none) (hu : validUtf8 text = true)
      (hlen : parseI64 text = some (-1)) : Spells .null (headerLine 36 text)
  | bulk {text payload : Bytes} (ht : findCrlf text = none) (hu : validUtf8 text = true)
      (hlen : parseI64 text = some (payload.length : Int)) :
      Spells (.bulk payload) (headerLine 36 text ++ (payload ++ crlf))
  | array {text bytes : Bytes} {count : Int} {items : List Frame} (ht : findCrlf text = none)
      (hu : validUtf8 text = true) (hcount : parseI64 text = some count)
      (hlength : items.length = count.toNat) (hitems : SpellsAll items bytes) :
      Spells (.array items) (headerLine 42 text ++ bytes)

inductive SpellsAll : List Frame → Bytes → Prop
  | nil : SpellsAll [] []
  | cons {f : Frame} {fs : List Frame} {bytes rest : Bytes} (hf : Spells f bytes)
      (hfs : SpellsAll fs rest) : SpellsAll (f :: fs) (bytes ++ rest)

end

/-- A bulk string as long as its header says, with something other than CR LF behind it. -/
def LooseBulk (p : Bytes) : Prop :=
  ∃ text payload a b rest, p = headerLine 36 text ++ (payload ++ a :: b :: rest) ∧
    findCrlf text = none ∧ validUtf8 text = true ∧
    parseI64 text = some (payload.length : Int) ∧ [a, b] ≠ crlf

/-- A type byte that RESP2 does not have, a line that is not UTF-8, or a line that should be a
number and is none. -/
def Malformed (p : Bytes) : Prop :=
  (∃ kind rest, p = kind :: rest ∧ kind ∉ [43, 45, 58, 36, 42]) ∨
    ∃ kind text rest, p = headerLine kind text ++ rest ∧ findCrlf text = none ∧
      (kind ∈ [43, 45, 58, 36, 42] ∧ validUtf8 text = false ∨
        kind ∈ [58, 36, 42] ∧ validUtf8 text = true ∧ parseI64 text = none)

/-- `decode` accepts what the grammar writes, and answers a bulk string that is not followed by
CR LF with `InvalidData`. -/
def DecodesStrictly (buf : Bytes) : Prop :=
  (∀ f, (RespCodec.decode buf).1 = .item f →
    ∃ consumed, buf = consumed ++ (RespCodec.decode buf).2 ∧ Spells f consumed) ∧
  (Meets LooseBulk 1 buf → ∃ e, (RespCodec.decode buf).1 = .fail (.invalidData e))

def Parsed.Rejected {α : Type} (r : Parsed α) : Prop := ∃ e, r = .invalid e

theorem parseLine_invalid {p : Bytes} {e : DecodeError} (h : parseLine p = .invalid e) :
    ∃ text rest, p = text ++ crlf ++ rest ∧ findCrlf text = none ∧ validUtf8 text = false := by
  unfold parseLine at h
  split at h
  · cases h
  · next n hn =>
    obtain ⟨rest, hp, -⟩ := findCrlf_eq_some hn
    split at h
    · cases h
    · next hu => exact ⟨p.take n, rest, hp, findCrlf_take hn, Bool.eq_false_iff.mpr hu⟩

theorem parseLine_of_not_utf8 {text : Bytes} (ht : findCrlf text = none)
    (hu : validUtf8 text = false) (rest : Bytes) :
    parseLine (text ++ crlf ++ rest) = .invalid .notUtf8 := by
  have hfound : findCrlf (text ++ crlf ++ rest) = some text.length := by
    rw [append_assoc]
    exact findCrlf_append text rest ht
  have htext : (text ++ crlf ++ rest).take text.length = text := by
    rw [append_assoc, take_left]
  rw [parseLine, hfound]
  simp only [htext, hu, Bool.false_eq_true, if_false]

theorem rejected_endsOnlyAt : EndsOnlyAt Parsed.Rejected Malformed where
  bind {α β r f} h := by
    cases r with
    | ok a n => exact .inr ⟨a, n, rfl, h⟩
    | invalid e => exact .inl ⟨e, rfl⟩
    | incomplete | panic =>
      obtain ⟨e, he⟩ := h
      cases he
  not_ok a n h := by
    obtain ⟨e, he⟩ := h
    cases he
  not_incomplete h := by
    obtain ⟨e, he⟩ := h
    cases he
  line {kind body} hkind h := by
    obtain ⟨e, he⟩ := h
    obtain ⟨text, rest, rfl, ht, hu⟩ := parseLine_invalid he
    refine .inr ⟨kind, text, rest, (headerLine_append kind text rest).symm, ht, .inl ⟨?_, hu⟩⟩
    rcases hkind with rfl | rfl <;> decide
  number {kind e body} hkind h := by
    obtain ⟨e', he⟩ := h
    cases hline : parseLine body with
    | incomplete | panic =>
      rw [parseNumber, hline] at he
      cases he
    | invalid e'' =>
      obtain ⟨text, rest, rfl, ht, hu⟩ := parseLine_invalid hline
      refine .inr ⟨kind, text, rest, (headerLine_append kind text rest).symm, ht, .inl ⟨?_, hu⟩⟩
      rcases hkind with rfl | rfl | rfl <;> decide
    | ok text n =>
      obtain ⟨rest, rfl, -, ht, hu⟩ := parseLine_eq_ok hline
      rw [parseNumber, hline, Parsed.bind_ok] at he
      split at he
      · cases he
      · next hnone =>
        refine .inr ⟨kind, text, rest, (headerLine_append kind text rest).symm, ht,
          .inr ⟨?_, hu, hnone⟩⟩
        rcases hkind with rfl | rfl | rfl <;> decide
  bulk {text rest len} hfits ht hu hlen h := by
    obtain ⟨e, he⟩ := h
    have hheader : text.length + 3 ≤ (headerLine 36 text ++ rest).length := by
      rw [length_append, headerLine_length]
      omega
    have hi := inI64_of_parseI64 hlen
    rcases lt_trichotomy len (-1) with hneg | rfl | hpos
    · rw [parseBulkBody_negative hfits hheader hi hneg] at he
      split at he <;> cases he
    · rw [parseBulkBody, if_pos rfl] at he
      cases he
    · rw [parseBulkBody_nonneg hfits hheader hi (by omega)] at he
      split at he <;> cases he
  unknown {kind body} hkind _ := .inl ⟨kind, body, rfl, hkind⟩

theorem parseFrame_malformed {kind : UInt8} {text rest : Bytes} (ht : findCrlf text = none)
    (h : kind ∈ [43, 45, 58, 36, 42] ∧ validUtf8 text = false ∨
      kind ∈ [58, 36, 42] ∧ validUtf8 text = true ∧ parseI64 text = none) (fuel : Nat) :
    (parseFrame (fuel + 1) (headerLine kind text ++ rest)).Rejected := by
  rw [headerLine_append]
  rcases h with ⟨hkind, hu⟩ | ⟨hkind, hu, hnone⟩
  · have hline := parseLine_of_not_utf8 ht hu rest
    have hnumber (e : DecodeError) :
        parseNumber e (text ++ crlf ++ rest) = .invalid .notUtf8 := by
      rw [parseNumber, hline]
      rfl
    simp only [mem_cons, not_mem_nil, or_false] at hkind
    refine ⟨.notUtf8, ?_⟩
    rcases hkind with rfl | rfl | rfl | rfl | rfl <;>
      simp [-append_assoc, parseFrame, hline, hnumber, Parsed.bind]
  · have hnumber (e : DecodeError) : parseNumber e (text ++ crlf ++ rest) = .invalid e := by
      rw [parseNumber, parseLine_append text rest ht hu, Parsed.bind_ok, hnone]
    simp only [mem_cons, not_mem_nil, or_false] at hkind
    rcases hkind with rfl | rfl | rfl <;>
      simp [-append_assoc, Parsed.Rejected, parseFrame, hnumber, Parsed.bind]

theorem rejected_endsAt : EndsAt Parsed.Rejected Malformed where
  bind {α β r} f h := by
    obtain ⟨e, rfl⟩ := h
    exact ⟨e, rfl⟩
  bad {p} fuel _ h := by
    rcases h with ⟨kind, rest, rfl, hkind⟩ | ⟨kind, text, rest, rfl, ht, h⟩
    · simp only [mem_cons, not_mem_nil, or_false, not_or] at hkind
      exact ⟨.unknownType kind, by simp [parseFrame, hkind]⟩
    · exact parseFrame_malformed ht h fuel

theorem take_headerLine (kind : UInt8) (text rest : Bytes) :
    (headerLine kind text ++ rest).take (text.length + 3) = headerLine kind text := by
  rw [← headerLine_length kind text, take_left]

theorem take_headerLine_add (kind : UInt8) (text rest : Bytes) (m : Nat) :
    (headerLine kind text ++ rest).take (text.length + 3 + m) =
      headerLine kind text ++ rest.take m := by
  rw [take_add, take_headerLine, drop_headerLine]

theorem parse_spells (fuel : Nat) :
    (∀ p f n, p.length < 2 ^ 63 - 1 → parseFrame fuel p = .ok f n →
      Spells f (p.take n) ∨ ∀ k, Meets LooseBulk (k + 1) p) ∧
    (∀ count p fs n, p.length < 2 ^ 63 - 1 → parseItems fuel count p = .ok fs n →
      SpellsAll fs (p.take n) ∧ fs.length = count ∨ ∀ k, Meets LooseBulk (count + k) p) := by
  induction fuel with
  | zero =>
    refine ⟨?_, ?_⟩
    · intro p f n _ h
      cases p <;> cases h
    · intro count p fs n _ h
      cases count <;> cases h
      exact .inl ⟨.nil, rfl⟩
  | succ fuel ih =>
    refine ⟨?_, ?_⟩
    · intro p f n hfits h
      cases frameAt_of_parseFrame hfits h with
      | simple ht hu =>
        left
        rw [take_headerLine]
        exact .simple ht hu
      | error ht hu =>
        left
        rw [take_headerLine]
        exact .error ht hu
      | integer ht hu hn =>
        left
        rw [take_headerLine]
        exact .integer ht hu hn
      | null ht hu hlen =>
        left
        rw [take_headerLine]
        exact .null ht hu hlen
      | @bulk text payload rest a b ht hu hlen =>
        by_cases hab : [a, b] = crlf
        · left
          have htaken : (payload ++ a :: b :: rest).take (payload.length + 2) =
              payload ++ crlf := by
            rw [take_add, take_left, drop_left, ← hab]
            rfl
          rw [Nat.add_assoc, take_headerLine_add, htaken]
          exact .bulk ht hu hlen
        · exact .inr fun k => .here ⟨text, payload, a, b, rest, rfl, ht, hu, hlen, hab⟩
      | array ht hu hcount hitems =>
        rw [take_headerLine_add]
        rcases ih.2 _ _ _ _ (length_of_header hfits) hitems with ⟨hspells, hlength⟩ | hloose
        · exact .inl (.array ht hu hcount hlength hspells)
        · exact .inr fun k => .array ht hu hcount (hloose k)
    · intro count p fs n hfits h
      cases count with
      | zero =>
        cases h
        exact .inl ⟨.nil, rfl⟩
      | succ count =>
        obtain ⟨item, m, hframe, h⟩ := Parsed.bind_eq_ok.mp h
        obtain ⟨items, j, hitems, h⟩ := Parsed.bind_eq_ok.mp h
        cases h
        have hskips : ∀ k, Meets LooseBulk k (p.drop m) → Meets LooseBulk (k + 1) p :=
          (meets_skips fuel).1 _ _ _ hfits hframe
        rcases ih.1 _ _ _ hfits hframe with hspells | hloose
        · rcases ih.2 _ _ _ _ (length_of_drop hfits m) hitems with ⟨hrest, hlength⟩ | hloose
          · left
            rw [take_add, length_cons, hlength]
            exact ⟨.cons hspells hrest, rfl⟩
          · right
            intro k
            rw [Nat.succ_add]
            exact hskips _ (hloose k)
        · right
          intro k
          rw [Nat.succ_add]
          exact hloose _

/-- Decoding follows the grammar exactly on the buffers in which every bulk string that the parser
comes to is followed by CR LF, or else the parser goes on to something else that it rejects. -/
theorem decodesStrictly_iff (buf : Bytes) (hfits : buf.length < 2 ^ 63 - 1) :
    DecodesStrictly buf ↔ (Meets LooseBulk 1 buf → Meets Malformed 1 buf) := by
  have hrejected : (∃ e, (RespCodec.decode buf).1 = .fail (.invalidData e)) ↔
      (decode buf).Rejected := by
    unfold RespCodec.decode Parsed.Rejected
    cases decode buf <;> simp
  constructor
  · intro h hloose
    exact rejected_endsOnlyAt.decode hfits (hrejected.mp (h.2 hloose))
  · intro h
    refine ⟨fun f hitem => ?_, fun hloose => ?_⟩
    · obtain ⟨n, hdecode, hrest⟩ := respCodec_item hitem
      refine ⟨buf.take n, by rw [hrest, take_append_drop], ?_⟩
      rcases (parse_spells _).1 _ _ _ hfits hdecode with hspells | hloose
      · exact hspells
      · obtain ⟨e, he⟩ := rejected_endsAt.decode hfits (h (hloose 0))
        cases hdecode.symm.trans he
    · exact hrejected.mpr (rejected_endsAt.decode hfits (h hloose))

theorem decodesStrictly_one : DecodesStrictly (txt "$1\r\na\r\n") ↔
    (Meets LooseBulk 1 (txt "$1\r\na\r\n") → Meets Malformed 1 (txt "$1\r\na\r\n")) :=
  decodesStrictly_iff (txt "$1\r\na\r\n") (by decide)

/-- One byte is declared, and what follows it is not CR LF: the frame is accepted and the two
bytes are dropped. -/
theorem decode_loose_bulk :
    ¬ DecodesStrictly (txt "$1\r\naXY") ∧
      RespCodec.decode (txt "$1\r\naXY") = (.item (.bulk (txt "a")), []) := by
  have hdecode : RespCodec.decode (txt "$1\r\naXY") = (.item (.bulk (txt "a")), []) := rfl
  have hloose : Meets LooseBulk 1 (txt "$1\r\naXY") :=
    .here ⟨txt "1", txt "a", 88, 89, [], rfl, rfl, rfl, rfl, by decide⟩
  refine ⟨fun h => ?_, hdecode⟩
  obtain ⟨e, he⟩ := h.2 hloose
  rw [hdecode] at he
  cases he

end RocketMem
