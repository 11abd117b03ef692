import RocketMem.Framework.BinCodec
import RocketMem.Protocol.CodecProof

namespace RocketMem

open List

/-- What can come off the wire, whatever its size: line texts are UTF-8 without CRLF, integers fit
an `i64`. -/
inductive WireFrame : Frame → Prop where
  | simple {s : Bytes} (hs : findCrlf s = none) (hu : validUtf8 s = true) : WireFrame (.simple s)
  | error {s : Bytes} (hs : findCrlf s = none) (hu : validUtf8 s = true) : WireFrame (.error s)
  | integer {n : Int} (hn : InI64 n) : WireFrame (.integer n)
  | bulk (b : Bytes) : WireFrame (.bulk b)
  | null : WireFrame .null
  | array {items : List Frame} (hitems : ∀ f ∈ items, WireFrame f) : WireFrame (.array items)

theorem WireFrame.command (words : List Bytes) : WireFrame (.command words) := by
  refine .array fun f hf => ?_
  obtain ⟨b, -, rfl⟩ := mem_map.mp hf
  exact .bulk b

theorem findCrlf_take {p : Bytes} {n : Nat} (h : findCrlf p = some n) :
    findCrlf (p.take n) = none := by
  induction p generalizing n with
  | nil => cases h
  | cons a rest ih =>
    cases rest with
    | nil => cases h
    | cons b rest =>
      rw [findCrlf] at h
      split at h
      · cases h
        rfl
      · next hne =>
        obtain ⟨m, hm, rfl⟩ := Option.map_eq_some_iff.mp h
        have htail := ih hm
        cases m with
        | zero => rfl
        | succ m =>
          rw [take_succ_cons] at htail
          rw [take_succ_cons, take_succ_cons, findCrlf, if_neg hne, htail]
          rfl

theorem parseLine_text {p t : Bytes} {n : Nat} (h : parseLine p = .ok t n) :
    findCrlf t = none ∧ validUtf8 t = true := by
  unfold parseLine at h
  split at h
  · cases h
  · next m hm =>
    split at h
    · next hutf8 =>
      cases h
      exact ⟨findCrlf_take hm, hutf8⟩
    · cases h

theorem parseNumber_inI64 {e : DecodeError} {p : Bytes} {i : Int} {n : Nat}
    (h : parseNumber e p = .ok i n) : InI64 i := by
  obtain ⟨line, m, -, h⟩ := Parsed.bind_eq_ok.mp h
  split at h
  · next hi =>
    cases h
    exact inI64_of_parseI64 hi
  · cases h

theorem parseBulkBody_wire {p : Bytes} {headerLen : Nat} {len : Int} {f : Frame} {n : Nat}
    (h : parseBulkBody p headerLen len = .ok f n) : WireFrame f := by
  unfold parseBulkBody at h
  split at h
  · cases h
    exact .null
  · dsimp only at h
    split at h
    · cases h
    · split at h
      · cases h
      · cases h
        exact .bulk _

theorem parse_wire (fuel : Nat) :
    (∀ p f n, parseFrame fuel p = .ok f n → WireFrame f) ∧
    (∀ count p fs n, parseItems fuel count p = .ok fs n → ∀ f ∈ fs, WireFrame f) := by
  induction fuel with
  | zero =>
    refine ⟨?_, ?_⟩
    · intro p f n h
      cases p <;> cases h
    · intro count p fs n h
      cases count <;> cases h
      exact nofun
  | succ fuel ih =>
    refine ⟨?_, ?_⟩
    · intro p f n h
      cases p with
      | nil => cases h
      | cons kind body =>
        simp only [parseFrame] at h
        split_ifs at h
        · obtain ⟨t, m, hl, h⟩ := Parsed.bind_eq_ok.mp h
          cases h
          exact .simple (parseLine_text hl).1 (parseLine_text hl).2
        · obtain ⟨t, m, hl, h⟩ := Parsed.bind_eq_ok.mp h
          cases h
          exact .error (parseLine_text hl).1 (parseLine_text hl).2
        · obtain ⟨i, m, hl, h⟩ := Parsed.bind_eq_ok.mp h
          cases h
          exact .integer (parseNumber_inI64 hl)
        · obtain ⟨len, m, hl, h⟩ := Parsed.bind_eq_ok.mp h
          exact parseBulkBody_wire h
        · obtain ⟨count, m, hl, h⟩ := Parsed.bind_eq_ok.mp h
          obtain ⟨items, k, hi, h⟩ := Parsed.bind_eq_ok.mp h
          cases h
          exact .array (ih.2 _ _ _ _ hi)
    · intro count p fs n h
      cases count with
      | zero =>
        cases h
        exact nofun
      | succ count =>
        obtain ⟨item, m, hf, h⟩ := Parsed.bind_eq_ok.mp h
        obtain ⟨items, k, hi, h⟩ := Parsed.bind_eq_ok.mp h
        cases h
        intro f hmem
        rcases mem_cons.mp hmem with rfl | hmem
        · exact ih.1 _ _ _ hf
        · exact ih.2 _ _ _ _ hi f hmem

theorem decode_wire {p : Bytes} {f : Frame} {n : Nat} (h : decode p = .ok f n) : WireFrame f :=
  (parse_wire _).1 _ _ _ h

theorem encodeItems_length (p : Protocol) (items : List Frame) :
    (encodeItems p items).length = (items.map fun f => (encode p f).length).sum := by
  induction items with
  | nil => rfl
  | cons f fs ih => rw [encodeItems, length_append, ih, map_cons, sum_cons]

theorem encode_le_encodeItems {p : Protocol} {items : List Frame} {f : Frame} (hf : f ∈ items) :
    (encode p f).length ≤ (encodeItems p items).length := by
  rw [encodeItems_length]
  exact single_le_sum (fun _ _ => Nat.zero_le _) _ (mem_map_of_mem hf)

theorem length_le_encodeItems (items : List Frame) :
    items.length ≤ (encodeItems .resp2 items).length := by
  rw [encodeItems_length]
  exact BinCodec.length_le_sum_map encode_pos items

theorem WireFrame.resp2 {f : Frame} (h : WireFrame f)
    (hsize : ((encode .resp2 f).length : Int) ≤ i64Max) : Resp2Frame f := by
  induction h with
  | simple hs hu => exact .simple hs hu
  | error hs hu => exact .error hs hu
  | integer hn => exact .integer hn
  | null => exact .null
  | bulk b =>
    refine .bulk ?_
    have hlen : (encode .resp2 (.bulk b)).length =
        (headerLine 36 (showNat b.length)).length + (b.length + crlf.length) := by
      rw [encode, length_append, length_append]
    omega
  | @array items hitems ih =>
    have hlen : (encode .resp2 (.array items)).length =
        (headerLine 42 (showNat items.length)).length + (encodeItems .resp2 items).length := by
      rw [encode, length_append]
    refine .array ?_ fun f hf => ih f hf ?_
    · have := length_le_encodeItems items
      omega
    · have := encode_le_encodeItems (p := .resp2) hf
      omega

variable {fs : List Frame}

theorem decode_flatMap_encode {f : Frame} (hf : Resp2Frame f) :
    decode ((f :: fs).flatMap (encode .resp2)) = .ok f (encode .resp2 f).length :=
  decode_encode hf _

theorem drop_flatMap_encode (f : Frame) (fs : List Frame) :
    ((f :: fs).flatMap (encode .resp2)).drop (encode .resp2 f).length =
      fs.flatMap (encode .resp2) :=
  drop_left

theorem decode_nil : decode [] = .incomplete := rfl

/-- Bytes that read as these frames, one after another, with nothing left over. -/
inductive DecodesAs : Bytes → List Frame → Prop
  | nil : DecodesAs [] []
  | cons {b : Bytes} {f : Frame} {n : Nat} {fs : List Frame} (h : decode b = .ok f n)
      (hrest : DecodesAs (b.drop n) fs) : DecodesAs b (f :: fs)

theorem DecodesAs.encode (h : ∀ f ∈ fs, Resp2Frame f) :
    DecodesAs (fs.flatMap (RocketMem.encode .resp2)) fs := by
  induction fs with
  | nil => exact .nil
  | cons f fs ih =>
    refine .cons (decode_flatMap_encode (h f mem_cons_self)) ?_
    rw [drop_flatMap_encode]
    exact ih fun f' hf' => h f' (mem_cons_of_mem f hf')

inductive ReadsTo (tail : Bytes) : Bytes → List Frame → Prop
  | done : ReadsTo tail tail []
  | cons {b : Bytes} {f : Frame} {n : Nat} {fs : List Frame} (h : decode b = .ok f n)
      (hrest : ReadsTo tail (b.drop n) fs) : ReadsTo tail b (f :: fs)

theorem ReadsTo.encode (h : ∀ f ∈ fs, Resp2Frame f) (tail : Bytes) :
    ReadsTo tail (fs.flatMap (RocketMem.encode .resp2) ++ tail) fs := by
  induction fs with
  | nil => exact .done
  | cons f fs ih =>
    rw [flatMap_cons, append_assoc]
    refine .cons (decode_encode (h f mem_cons_self) _) ?_
    rw [drop_left]
    exact ih fun f' hf' => h f' (mem_cons_of_mem f hf')

theorem DecodesAs.readsTo {b : Bytes} (h : DecodesAs b fs) : ReadsTo [] b fs := by
  induction h with
  | nil => exact .done
  | cons h _ ih => exact .cons h ih

theorem ReadsTo.length_le {tail b : Bytes} (h : ReadsTo tail b fs) : tail.length ≤ b.length := by
  induction h with
  | done => exact Nat.le_refl _
  | cons _ _ ih =>
    rw [length_drop] at ih
    omega

theorem DecodesAs.arrived {p q : Bytes} (h : DecodesAs (p ++ q) fs)
    (hlen : (p ++ q).length < 2 ^ 63) :
    decode p = .incomplete ∨
      ∃ f n fs', fs = f :: fs' ∧ decode p = .ok f n ∧ DecodesAs (p.drop n ++ q) fs' := by
  rcases decode_extends p q hlen with hwait | hsame
  · exact .inl hwait
  generalize hpq : p ++ q = b at h
  cases h with
  | nil =>
    obtain ⟨rfl, -⟩ := append_eq_nil_iff.mp hpq
    exact .inl decode_nil
  | @cons _ f n fs' hdecode hrest =>
    rw [hpq, hdecode] at hsame
    have hbound : n ≤ p.length := (parse_bound _).1 _ _ _ hsame.symm
    rw [← hpq, drop_append_of_le_length hbound] at hrest
    exact .inr ⟨f, n, fs', rfl, hsame.symm, hrest⟩

theorem DecodesAs.eq_nil {b : Bytes} (h : DecodesAs b fs)
    (hwait : decode b = .incomplete) : fs = [] := by
  cases h with
  | nil => rfl
  | cons hdecode _ =>
    rw [hwait] at hdecode
    cases hdecode

end RocketMem
