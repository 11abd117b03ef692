import RocketMem.Framework.BinCodec

namespace RocketMem

open List

inductive DecodeResult (α ε : Type) where
  | wait
  | item (a : α)
  | fail (e : ε)

/-- A decoder that is called with a buffer and leaves what it did not take: a call that waits
takes nothing, one that gives an item takes something, and bytes that arrive later change neither
what a call said nor what it took. `bound` is the size a buffer can have. -/
structure IncrementalDecoder (α β ε : Type) where
  decode : List β → DecodeResult α ε × List β
  bound : Nat
  nil : (decode []).1 = .wait
  wait_keeps : ∀ p, (decode p).1 = .wait → (decode p).2 = p
  progress : ∀ p a, p.length < bound → (decode p).1 = .item a → (decode p).2.length < p.length
  append : ∀ p q, (p ++ q).length < bound → (decode p).1 ≠ .wait →
    decode (p ++ q) = ((decode p).1, (decode p).2 ++ q)

inductive Ending (β ε : Type) where
  | waiting (rest : List β)
  | failed (e : ε)

structure Decoded (α β ε : Type) where
  items : List α
  ending : Ending β ε

namespace Decoded

variable {α β ε : Type}

def cons (a : α) (r : Decoded α β ε) : Decoded α β ε := ⟨a :: r.items, r.ending⟩

end Decoded

namespace IncrementalDecoder

variable {α β ε : Type} (d : IncrementalDecoder α β ε)

def drainWithin : Nat → List β → Decoded α β ε
  | 0, buf => ⟨[], .waiting buf⟩
  | n + 1, buf =>
    match d.decode buf with
    | (.wait, rest) => ⟨[], .waiting rest⟩
    | (.fail e, _) => ⟨[], .failed e⟩
    | (.item a, rest) => (drainWithin n rest).cons a

/-- Call the decoder until it needs more input; every item takes something off the buffer. -/
def drain (buf : List β) : Decoded α β ε := d.drainWithin (buf.length + 1) buf

def read (r : Decoded α β ε) (chunk : List β) : Decoded α β ε :=
  match r.ending with
  | .failed _ => r
  | .waiting rest => ⟨r.items ++ (d.drain (rest ++ chunk)).items, (d.drain (rest ++ chunk)).ending⟩

def readAll (chunks : List (List β)) : Decoded α β ε := chunks.foldl d.read ⟨[], .waiting []⟩

variable {d} {buf : List β}

theorem drainWithin_enough {n m : Nat} (hlen : buf.length < d.bound)
    (hn : buf.length < n) (hm : buf.length < m) : d.drainWithin n buf = d.drainWithin m buf := by
  induction n generalizing m buf with
  | zero => exact absurd hn (Nat.not_lt_zero _)
  | succ n ih =>
    obtain ⟨m, rfl⟩ : ∃ k, m = k + 1 := ⟨m - 1, by omega⟩
    rcases hdec : d.decode buf with ⟨o, rest⟩
    cases o with
    | wait => simp only [drainWithin, hdec]
    | fail e => simp only [drainWithin, hdec]
    | item a =>
      have hrest := d.progress buf a hlen (by rw [hdec])
      simp only [hdec] at hrest
      simp only [drainWithin, hdec]
      rw [ih (m := m) (by omega) (by omega) (by omega)]

theorem drain_of_wait (h : (d.decode buf).1 = .wait) : d.drain buf = ⟨[], .waiting buf⟩ := by
  have hkeep := d.wait_keeps buf h
  have hdec : d.decode buf = (.wait, buf) := Prod.ext h hkeep
  simp only [drain, drainWithin, hdec]

theorem drain_of_fail {e : ε} (h : (d.decode buf).1 = .fail e) : d.drain buf = ⟨[], .failed e⟩ := by
  have hdec : d.decode buf = (.fail e, (d.decode buf).2) := Prod.ext h rfl
  rw [drain, drainWithin, hdec]

theorem drain_of_item {a : α} (hlen : buf.length < d.bound)
    (h : (d.decode buf).1 = .item a) : d.drain buf = (d.drain (d.decode buf).2).cons a := by
  have hdec : d.decode buf = (.item a, (d.decode buf).2) := Prod.ext h rfl
  have hrest := d.progress buf a hlen h
  rw [drain, drainWithin, hdec]
  exact congrArg (Decoded.cons a)
    (drainWithin_enough (Nat.lt_trans hrest hlen) hrest (Nat.lt_succ_self _))

theorem decode_of_drain_waiting {buf rest : List β} (hlen : buf.length < d.bound)
    (h : (d.drain buf).ending = .waiting rest) : (d.decode rest).1 = .wait := by
  generalize hn : buf.length = n
  induction n using Nat.strongRecOn generalizing buf with
  | ind n ih =>
    cases hdec : (d.decode buf).1 with
    | wait =>
      rw [drain_of_wait hdec] at h
      cases h
      exact hdec
    | fail e =>
      rw [drain_of_fail hdec] at h
      cases h
    | item a =>
      rw [drain_of_item hlen hdec] at h
      have hrest := d.progress buf a hlen hdec
      exact ih _ (hn ▸ hrest) (Nat.lt_trans hrest hlen) h rfl

theorem read_cons (a : α) (r : Decoded α β ε) (chunk : List β) :
    d.read (r.cons a) chunk = (d.read r chunk).cons a := by
  obtain ⟨items, ending⟩ := r
  cases ending <;> rfl

theorem drain_append {p : List β} (q : List β) (hlen : (p ++ q).length < d.bound) :
    d.drain (p ++ q) = d.read (d.drain p) q := by
  generalize hn : p.length = n
  induction n using Nat.strongRecOn generalizing p with
  | ind n ih =>
    have hp : p.length < d.bound := by
      rw [length_append] at hlen
      omega
    cases hdec : (d.decode p).1 with
    | wait =>
      rw [drain_of_wait hdec]
      rfl
    | fail e =>
      have happ := d.append p q hlen (by rw [hdec]; nofun)
      rw [drain_of_fail hdec, drain_of_fail (e := e) (by rw [happ, hdec])]
      rfl
    | item a =>
      have happ := d.append p q hlen (by rw [hdec]; nofun)
      have hrest := d.progress p a hp hdec
      have hfits : ((d.decode p).2 ++ q).length < d.bound := by
        rw [length_append] at hlen ⊢
        omega
      rw [drain_of_item (a := a) hlen (by rw [happ, hdec]), drain_of_item hp hdec, happ]
      rw [ih _ (hn ▸ hrest) hfits rfl, read_cons]

theorem foldl_read {chunks : List (List β)} {p : List β}
    (hlen : (p ++ chunks.flatten).length < d.bound) :
    chunks.foldl d.read (d.drain p) = d.drain (p ++ chunks.flatten) := by
  induction chunks generalizing p with
  | nil => rw [flatten_nil, append_nil, foldl_nil]
  | cons chunk chunks ih =>
    rw [flatten_cons, ← append_assoc] at hlen ⊢
    have hfits : (p ++ chunk).length < d.bound := by
      rw [length_append] at hlen
      omega
    rw [foldl_cons, ← drain_append chunk hfits, ih hlen]

theorem readAll_eq_drain {chunks : List (List β)} (hlen : chunks.flatten.length < d.bound) :
    d.readAll chunks = d.drain chunks.flatten := by
  have hnil : d.drain [] = ⟨[], .waiting []⟩ := drain_of_wait d.nil
  rw [readAll, ← hnil, foldl_read hlen, nil_append]

variable {encode : α → List β} {items : List α}

theorem drainWithin_parts {parts : List (List β)}
    (h : List.Forall₂ (fun a b => 0 < b.length ∧ ∀ rest, d.decode (b ++ rest) = (.item a, rest))
      items parts) {n : Nat} (hn : items.length < n) :
    d.drainWithin n parts.flatten = ⟨items, .waiting []⟩ := by
  induction h generalizing n with
  | nil =>
    obtain ⟨n, rfl⟩ : ∃ k, n = k + 1 := ⟨n - 1, by omega⟩
    have hdec : d.decode [] = (.wait, []) := Prod.ext d.nil (d.wait_keeps [] d.nil)
    simp only [flatten_nil, drainWithin, hdec]
  | cons hpart _ ih =>
    obtain ⟨n, rfl⟩ : ∃ k, n = k + 1 := ⟨n - 1, by omega⟩
    have htail := ih (Nat.lt_of_succ_lt_succ hn)
    simp only [flatten_cons, drainWithin, hpart.2, htail]
    rfl

theorem drain_parts {parts : List (List β)}
    (h : List.Forall₂ (fun a b => 0 < b.length ∧ ∀ rest, d.decode (b ++ rest) = (.item a, rest))
      items parts) : d.drain parts.flatten = ⟨items, .waiting []⟩ := by
  have hlen : items.length ≤ parts.flatten.length := by
    induction h with
    | nil => exact Nat.le_refl _
    | cons hpart _ ih =>
      have hpos := hpart.1
      rw [flatten_cons, length_append, length_cons]
      omega
  exact drainWithin_parts h (Nat.lt_succ_of_le hlen)

theorem drain_flatMap (h : ∀ a ∈ items, ∀ rest, d.decode (encode a ++ rest) = (.item a, rest))
    (hpos : ∀ a, 0 < (encode a).length) :
    d.drain (items.flatMap encode) = ⟨items, .waiting []⟩ := by
  apply drain_parts
  rw [forall₂_map_right_iff, forall₂_same]
  intro a ha
  exact ⟨hpos a, h a ha⟩

end IncrementalDecoder

end RocketMem
