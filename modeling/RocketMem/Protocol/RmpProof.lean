import Mathlib.Data.List.GetD
import RocketMem.Protocol.Rmp

namespace RocketMem

open List Nat

inductive TypedFrame : Frame → Prop where
  | simple {s : Bytes} (hs : validUtf8 s = true) : TypedFrame (.simple s)
  | error {s : Bytes} (hs : validUtf8 s = true) : TypedFrame (.error s)
  | integer {n : Int} (hn : InI64 n) : TypedFrame (.integer n)
  | bulk (b : Bytes) : TypedFrame (.bulk b)
  | null : TypedFrame .null
  | array {items : List Frame} (hitems : ∀ f ∈ items, TypedFrame f) : TypedFrame (.array items)
  | map {pairs : List (Frame × Frame)} (hkeys : ∀ p ∈ pairs, TypedFrame p.1)
      (hvalues : ∀ p ∈ pairs, TypedFrame p.2) : TypedFrame (.map pairs)
  | push {items : List Frame} (hitems : ∀ f ∈ items, TypedFrame f) : TypedFrame (.push items)

mutual

def Frame.nesting : Frame → Nat
  | .array items => nestingItems items + 1
  | .map pairs => nestingPairs pairs + 1
  | .push items => nestingItems items + 1
  | .simple _ | .error _ | .integer _ | .bulk _ | .null => 0
termination_by structural f => f

def nestingItems : List Frame → Nat
  | [] => 0
  | f :: fs => max f.nesting (nestingItems fs)
termination_by structural fs => fs

def nestingPair : Frame × Frame → Nat
  | (k, v) => max k.nesting v.nesting
termination_by structural kv => kv

def nestingPairs : List (Frame × Frame) → Nat
  | [] => 0
  | kv :: kvs => max (nestingPair kv) (nestingPairs kvs)
termination_by structural kvs => kvs

end

theorem nesting_le_of_mem {items : List Frame} {f : Frame} (hf : f ∈ items) :
    f.nesting ≤ nestingItems items := by
  induction items with
  | nil => cases hf
  | cons g items ih =>
    rw [nestingItems]
    rcases mem_cons.mp hf with rfl | hf
    · exact le_max_left _ _
    · exact le_trans (ih hf) (le_max_right _ _)

theorem nesting_le_of_mem_pairs {pairs : List (Frame × Frame)} {p : Frame × Frame}
    (hp : p ∈ pairs) : p.1.nesting ≤ nestingPairs pairs ∧ p.2.nesting ≤ nestingPairs pairs := by
  induction pairs with
  | nil => cases hp
  | cons q pairs ih =>
    rw [nestingPairs]
    rcases mem_cons.mp hp with rfl | hp
    · obtain ⟨k, v⟩ := p
      rw [nestingPair]
      dsimp only
      omega
    · have hrest := ih hp
      omega

section

variable {α β ε : Type}

theorem bind_ok_iff {x : Except ε α} {f : α → Except ε β} {b : β} :
    x.bind f = .ok b ↔ ∃ a, x = .ok a ∧ f a = .ok b := by
  cases x with
  | error e => simp [Except.bind]
  | ok a => simp [Except.bind]

theorem map_eq_ok {x : Except ε α} {f : α → β} {b : β} :
    x.map f = .ok b ↔ ∃ a, x = .ok a ∧ f a = b := by
  cases x with
  | error e => simp [Except.map]
  | ok a => simp [Except.map]

end

namespace Rmp

section

variable {src rest : Bytes}

theorem takeLen_append {n : Nat} (hn : n ≤ maxRmpFrameLen) :
    takeLen (beBytes 4 n ++ rest) = .ok (n, rest) := by
  have hlt : n < 256 ^ 4 := lt_of_le_of_lt hn (by decide)
  have htake : (beBytes 4 n ++ rest).take 4 = beBytes 4 n := take_left' (length_beBytes 4 n)
  have hdrop : (beBytes 4 n ++ rest).drop 4 = rest := drop_left' (length_beBytes 4 n)
  have hlen : ¬ (beBytes 4 n ++ rest).length < 4 := by
    rw [length_append, length_beBytes]
    omega
  rw [takeLen, if_neg hlen, htake, hdrop, ofBeBytes_beBytes hlt, if_neg (not_lt.mpr hn)]

theorem takeLen_ok {n : Nat} (h : takeLen src = .ok (n, rest)) :
    src = beBytes 4 n ++ rest ∧ n ≤ maxRmpFrameLen := by
  unfold takeLen at h
  split_ifs at h with hlen hmax
  cases h
  have htake : (src.take 4).length = 4 := by
    rw [length_take]
    omega
  rw [beBytes_ofBeBytes htake, take_append_drop]
  exact ⟨rfl, not_lt.mp hmax⟩

theorem takeI64_append {n : Int} (hn : InI64 n) : takeI64 (putI64 n ++ rest) = .ok (n, rest) := by
  have hlt : (n % 2 ^ 64).toNat < 256 ^ 8 := by omega
  have hcast : (((n % 2 ^ 64).toNat : Nat) : Int) = n % 2 ^ 64 := by omega
  have hput : (putI64 n).length = 8 := length_beBytes 8 _
  have hlen : ¬ (putI64 n ++ rest).length < 8 := by
    rw [length_append, hput]
    omega
  rw [takeI64, if_neg hlen, take_left' hput, drop_left' hput, putI64,
    ofBeBytes_beBytes hlt, hcast, BinCodec.wrapI64_emod hn]

theorem takeI64_ok {n : Int} (h : takeI64 src = .ok (n, rest)) :
    src = putI64 n ++ rest ∧ InI64 n := by
  unfold takeI64 at h
  split_ifs at h with hlen
  rw [Except.ok.injEq, Prod.mk.injEq] at h
  obtain ⟨rfl, rfl⟩ := h
  have htake : (src.take 8).length = 8 := by
    rw [length_take]
    omega
  have hlt := ofBeBytes_lt (src.take 8)
  rw [htake] at hlt
  have hmod : (wrapI64 (ofBeBytes (src.take 8)) % 2 ^ 64).toNat = ofBeBytes (src.take 8) := by
    have hbmod : (ofBeBytes (src.take 8) : Int).bmod (2 ^ 64) % ((2 ^ 64 : Nat) : Int) =
        (ofBeBytes (src.take 8) : Int) % ((2 ^ 64 : Nat) : Int) := Int.bmod_emod
    have hcast : ((2 ^ 64 : Nat) : Int) = 2 ^ 64 := by norm_num
    rw [hcast] at hbmod
    rw [wrapI64, hbmod]
    omega
  rw [putI64, hmod, beBytes_ofBeBytes htake, take_append_drop]
  exact ⟨rfl, wrapI64_inI64 _⟩

theorem takeBytes_append (b rest : Bytes) : takeBytes b.length (b ++ rest) = .ok (b, rest) := by
  have hlen : ¬ (b ++ rest).length < b.length := by
    rw [length_append]
    omega
  rw [takeBytes, if_neg hlen, take_left, drop_left]

theorem takeBytes_ok {len : Nat} {b : Bytes} (h : takeBytes len src = .ok (b, rest)) :
    src = b ++ rest ∧ b.length = len := by
  unfold takeBytes at h
  split_ifs at h with hlen
  cases h
  rw [take_append_drop, length_take]
  exact ⟨rfl, by omega⟩

theorem takeString_append {s : Bytes} (hs : validUtf8 s = true) (rest : Bytes) :
    takeString s.length (s ++ rest) = .ok (s, rest) := by
  rw [takeString, takeBytes_append]
  exact if_pos hs

theorem takeString_ok {len : Nat} {s : Bytes} (h : takeString len src = .ok (s, rest)) :
    src = s ++ rest ∧ s.length = len ∧ validUtf8 s = true := by
  obtain ⟨r, hr, h⟩ := bind_ok_iff.mp h
  split_ifs at h with hs
  cases h
  obtain ⟨hsrc, hlen⟩ := takeBytes_ok hr
  exact ⟨hsrc, hlen, hs⟩

variable {take : Nat → Reader Bytes} {kind : Bytes → Frame}

theorem length_le_putSlice {tag : UInt8} {b : Bytes} : b.length ≤ (putSlice tag b).length := by
  rw [putSlice, length_cons, length_append]
  omega

theorem takeSlice_append {s : Bytes} (hlen : s.length ≤ maxRmpFrameLen)
    (htake : take s.length (s ++ rest) = .ok (s, rest)) :
    takeSlice take kind (beBytes 4 s.length ++ s ++ rest) = .ok (kind s, rest) := by
  rw [takeSlice, append_assoc, takeLen_append hlen]
  exact map_eq_ok.mpr ⟨_, htake, rfl⟩

theorem takeSlice_ok {f : Frame} (h : takeSlice take kind src = .ok (f, rest)) :
    ∃ len s src', take len src' = .ok (s, rest) ∧ src = beBytes 4 len ++ src' ∧ f = kind s := by
  obtain ⟨r, hlen, h⟩ := bind_ok_iff.mp h
  obtain ⟨s, hs, h⟩ := map_eq_ok.mp h
  cases h
  exact ⟨_, _, _, hs, (takeLen_ok hlen).1, rfl⟩

end

section

variable {α : Type} {read : Reader α} {write : α → Except Bytes Bytes} {rest : Bytes}

theorem takeMany_append {items : List α} {parts : List Bytes}
    (h : Forall₂ (fun a b => ∀ rest, read (b ++ rest) = .ok (a, rest)) items parts) :
    takeMany read items.length (parts.flatten ++ rest) = .ok (items, rest) := by
  induction h with
  | nil => rfl
  | cons hread _ ih =>
    rw [flatten_cons, append_assoc, length_cons, takeMany, hread]
    exact map_eq_ok.mpr ⟨_, ih, rfl⟩

theorem takeMany_ok {V : α → Prop} {src : Bytes} {count : Nat} {items : List α}
    (hread : ∀ src a rest, read src = .ok (a, rest) → ∃ b, write a = .ok b ∧ src = b ++ rest ∧ V a)
    (h : takeMany read count src = .ok (items, rest)) :
    ∃ parts, Forall₂ (fun a b => write a = .ok b) items parts ∧ src = parts.flatten ++ rest ∧
      items.length = count ∧ ∀ a ∈ items, V a := by
  induction count generalizing src items with
  | zero =>
    cases h
    exact ⟨[], .nil, rfl, rfl, fun a ha => absurd ha not_mem_nil⟩
  | succ count ih =>
    obtain ⟨r, hr, h⟩ := bind_ok_iff.mp h
    obtain ⟨rs, hrs, h⟩ := map_eq_ok.mp h
    cases h
    obtain ⟨b, hb, hsrc, hv⟩ := hread _ _ _ hr
    obtain ⟨parts, hparts, hsrc', hlen, hall⟩ := ih hrs
    refine ⟨b :: parts, .cons hb hparts, ?_, congrArg succ hlen, ?_⟩
    · rw [hsrc, hsrc', flatten_cons, append_assoc]
    · intro a ha
      rcases mem_cons.mp ha with rfl | ha
      · exact hv
      · exact hall a ha

theorem takeMany_mono {read' : Reader α} {src : Bytes} {count : Nat} {r : List α × Bytes}
    (hread : ∀ src r, read src = .ok r → read' src = .ok r) (h : takeMany read count src = .ok r) :
    takeMany read' count src = .ok r := by
  induction count generalizing src r with
  | zero => exact h
  | succ count ih =>
    obtain ⟨a, ha, h⟩ := bind_ok_iff.mp h
    obtain ⟨as, has, h⟩ := map_eq_ok.mp h
    exact bind_ok_iff.mpr ⟨a, hread _ _ ha, map_eq_ok.mpr ⟨as, ih has, h⟩⟩

theorem writeAll_ok_iff (write : α → Except Bytes Bytes)
    (writeAll : List α → Except Bytes Bytes) (hnil : writeAll [] = .ok [])
    (hcons : ∀ a items, writeAll (a :: items) =
      (write a).bind fun b => (writeAll items).map fun bs => b ++ bs)
    {items : List α} {body : Bytes} :
    writeAll items = .ok body ↔
      ∃ parts, Forall₂ (fun a b => write a = .ok b) items parts ∧ body = parts.flatten := by
  induction items generalizing body with
  | nil =>
    rw [hnil]
    constructor
    · intro h
      cases h
      exact ⟨[], .nil, rfl⟩
    · rintro ⟨parts, hparts, rfl⟩
      cases hparts
      rfl
  | cons a items ih =>
    rw [hcons]
    constructor
    · intro h
      obtain ⟨b, hb, h⟩ := bind_ok_iff.mp h
      obtain ⟨bs, hbs, rfl⟩ := map_eq_ok.mp h
      obtain ⟨parts, hparts, rfl⟩ := ih.mp hbs
      exact ⟨b :: parts, .cons hb hparts, rfl⟩
    · rintro ⟨parts, hparts, rfl⟩
      cases hparts with
      | cons hb hparts =>
        exact bind_ok_iff.mpr ⟨_, hb, map_eq_ok.mpr ⟨_, ih.mpr ⟨_, hparts, rfl⟩, rfl⟩⟩

theorem encodeItems_ok_iff {items : List Frame} {body : Bytes} :
    encodeItems items = .ok body ↔
      ∃ parts, Forall₂ (fun f b => encodeFrame f = .ok b) items parts ∧ body = parts.flatten :=
  writeAll_ok_iff encodeFrame encodeItems rfl fun _ _ => by rw [encodeItems]

theorem encodePairs_ok_iff {pairs : List (Frame × Frame)} {body : Bytes} :
    encodePairs pairs = .ok body ↔
      ∃ parts, Forall₂ (fun p b => encodePair p = .ok b) pairs parts ∧ body = parts.flatten :=
  writeAll_ok_iff encodePair encodePairs rfl fun _ _ => by rw [encodePairs]

end

section

variable {src rest bytes : Bytes} {f : Frame} {parts : List Bytes} {r : Frame × Bytes} {α : Type}

theorem encodeFrame_pos (h : encodeFrame f = .ok bytes) : 0 < bytes.length := by
  cases f with
  | array items | map pairs =>
    rw [encodeFrame] at h
    obtain ⟨body, -, rfl⟩ := map_eq_ok.mp h
    exact succ_pos _
  | push items =>
    rw [encodeFrame] at h
    cases h
  | simple s | error s | integer n | bulk b | null =>
    rw [encodeFrame] at h
    cases h
    exact succ_pos _

theorem encodePair_ok_iff {p : Frame × Frame} :
    encodePair p = .ok bytes ↔
      ∃ k v, encodeFrame p.1 = .ok k ∧ encodeFrame p.2 = .ok v ∧ bytes = k ++ v := by
  obtain ⟨key, value⟩ := p
  rw [encodePair, bind_ok_iff]
  simp only [map_eq_ok]
  constructor
  · rintro ⟨k, hk, v, hv, rfl⟩
    exact ⟨k, v, hk, hv, rfl⟩
  · rintro ⟨k, v, hk, hv, rfl⟩
    exact ⟨k, hk, v, hv, rfl⟩

theorem length_le_flatten {write : α → Except Bytes Bytes}
    (hpos : ∀ a b, write a = .ok b → 0 < b.length) {items : List α}
    (h : Forall₂ (fun a b => write a = .ok b) items parts) :
    items.length ≤ parts.flatten.length ∧ ∀ b ∈ parts, b.length ≤ parts.flatten.length := by
  induction h with
  | nil => exact ⟨le_refl _, fun b hb => absurd hb not_mem_nil⟩
  | cons hwrite _ ih =>
    have hhead := hpos _ _ hwrite
    obtain ⟨hlen, hparts⟩ := ih
    rw [flatten_cons, length_append, length_cons]
    refine ⟨by omega, ?_⟩
    intro b hb
    rcases mem_cons.mp hb with rfl | hb
    · omega
    · have hle := hparts b hb
      omega

theorem forall₂_read {read : Reader α} {write : α → Except Bytes Bytes} {items : List α}
    (h : Forall₂ (fun a b => write a = .ok b) items parts)
    (hread : ∀ a ∈ items, ∀ b ∈ parts, write a = .ok b → ∀ rest, read (b ++ rest) = .ok (a, rest)) :
    Forall₂ (fun a b => ∀ rest, read (b ++ rest) = .ok (a, rest)) items parts := by
  induction h with
  | nil => exact .nil
  | cons hwrite _ ih =>
    refine .cons (hread _ mem_cons_self _ mem_cons_self hwrite) (ih ?_)
    intro a ha b hb
    exact hread a (mem_cons_of_mem _ ha) b (mem_cons_of_mem _ hb)

theorem takeItems_append {read : Reader α} {kind : List α → Frame} {items : List α}
    (hlen : items.length ≤ maxRmpFrameLen)
    (h : Forall₂ (fun a b => ∀ rest, read (b ++ rest) = .ok (a, rest)) items parts) :
    takeItems read kind (beBytes 4 items.length ++ parts.flatten ++ rest) =
      .ok (kind items, rest) := by
  rw [takeItems, append_assoc, takeLen_append hlen]
  exact map_eq_ok.mpr ⟨_, takeMany_append h, rfl⟩

section

variable (room : Nat) (src : Bytes)

theorem decodeFrameInner_simple :
    decodeFrameInner (room + 1) (0x01 :: src) = takeSlice takeString .simple src := rfl

theorem decodeFrameInner_error :
    decodeFrameInner (room + 1) (0x02 :: src) = takeSlice takeString .error src := rfl

theorem decodeFrameInner_integer :
    decodeFrameInner (room + 1) (0x03 :: src) =
      (takeI64 src).map fun s => (.integer s.1, s.2) := rfl

theorem decodeFrameInner_bulk :
    decodeFrameInner (room + 1) (0x04 :: src) = takeSlice takeBytes .bulk src := rfl

theorem decodeFrameInner_array :
    decodeFrameInner (room + 1) (0x05 :: src) = takeItems (decodeFrameInner room) .array src := rfl

theorem decodeFrameInner_map :
    decodeFrameInner (room + 1) (0x06 :: src) =
      takeItems (takePair (decodeFrameInner room)) .map src := rfl

end

theorem decodeFrameInner_encode (hf : TypedFrame f) {room : Nat} (hroom : f.nesting < room)
    (h : encodeFrame f = .ok bytes) (hlen : bytes.length ≤ maxRmpFrameLen) (rest : Bytes) :
    decodeFrameInner room (bytes ++ rest) = .ok (f, rest) := by
  obtain ⟨room, rfl⟩ : ∃ k, room = k + 1 := ⟨room - 1, by omega⟩
  induction hf generalizing room bytes rest with
  | null =>
    rw [encodeFrame] at h
    cases h
    rfl
  | @simple s hs =>
    rw [encodeFrame] at h
    cases h
    rw [putSlice, cons_append, decodeFrameInner_simple]
    exact takeSlice_append (length_le_putSlice.trans hlen) (takeString_append hs rest)
  | @error s hs =>
    rw [encodeFrame] at h
    cases h
    rw [putSlice, cons_append, decodeFrameInner_error]
    exact takeSlice_append (length_le_putSlice.trans hlen) (takeString_append hs rest)
  | @integer n hn =>
    rw [encodeFrame] at h
    cases h
    rw [cons_append, decodeFrameInner_integer, takeI64_append hn]
    rfl
  | bulk b =>
    rw [encodeFrame] at h
    cases h
    rw [putSlice, cons_append, decodeFrameInner_bulk]
    exact takeSlice_append (length_le_putSlice.trans hlen) (takeBytes_append b rest)
  | @array items hitems ih =>
    rw [Frame.nesting] at hroom
    rw [encodeFrame] at h
    obtain ⟨body, hbody, rfl⟩ := map_eq_ok.mp h
    obtain ⟨parts, hparts, rfl⟩ := encodeItems_ok_iff.mp hbody
    obtain ⟨hcount, hshort⟩ := length_le_flatten (fun _ _ => encodeFrame_pos) hparts
    simp only [length_cons, length_append, length_beBytes] at hlen
    have hread : Forall₂ (fun g b => ∀ rest, decodeFrameInner room (b ++ rest) = .ok (g, rest))
        items parts := by
      apply forall₂_read hparts
      intro g hg b hb hwrite rest
      have hdeep := nesting_le_of_mem hg
      have hsize := hshort b hb
      obtain ⟨room, rfl⟩ : ∃ k, room = k + 1 := ⟨room - 1, by omega⟩
      exact ih g hg hwrite (by omega) rest room (by omega)
    rw [cons_append, decodeFrameInner_array]
    exact takeItems_append (by omega) hread
  | @map pairs hkeys hvalues ihk ihv =>
    rw [Frame.nesting] at hroom
    rw [encodeFrame] at h
    obtain ⟨body, hbody, rfl⟩ := map_eq_ok.mp h
    obtain ⟨parts, hparts, rfl⟩ := encodePairs_ok_iff.mp hbody
    have hpos : ∀ p b, encodePair p = .ok b → 0 < b.length := by
      intro p b hp
      obtain ⟨k, v, hk, -, rfl⟩ := encodePair_ok_iff.mp hp
      have hkpos := encodeFrame_pos hk
      rw [length_append]
      omega
    obtain ⟨hcount, hshort⟩ := length_le_flatten hpos hparts
    simp only [length_cons, length_append, length_beBytes] at hlen
    have hread : Forall₂
        (fun p b => ∀ rest, takePair (decodeFrameInner room) (b ++ rest) = .ok (p, rest))
        pairs parts := by
      apply forall₂_read hparts
      intro p hp b hb hwrite rest
      obtain ⟨hdeepk, hdeepv⟩ := nesting_le_of_mem_pairs hp
      have hsize := hshort b hb
      obtain ⟨k, v, hk, hv, rfl⟩ := encodePair_ok_iff.mp hwrite
      rw [length_append] at hsize
      obtain ⟨room, rfl⟩ : ∃ k, room = k + 1 := ⟨room - 1, by omega⟩
      have hreadk := ihk p hp hk (by omega) (v ++ rest) room (by omega)
      have hreadv := ihv p hp hv (by omega) rest room (by omega)
      rw [append_assoc]
      exact bind_ok_iff.mpr ⟨_, hreadk, map_eq_ok.mpr ⟨_, hreadv, rfl⟩⟩
    rw [cons_append, decodeFrameInner_map]
    exact takeItems_append (by omega) hread
  | push hitems ih =>
    rw [encodeFrame] at h
    cases h

theorem takeItems_ok {read : Reader α} {kind : List α → Frame}
    (h : takeItems read kind src = .ok (f, rest)) :
    ∃ count items src', takeMany read count src' = .ok (items, rest) ∧
      src = beBytes 4 count ++ src' ∧ f = kind items := by
  obtain ⟨r, hlen, h⟩ := bind_ok_iff.mp h
  obtain ⟨items, hitems, h⟩ := map_eq_ok.mp h
  cases h
  exact ⟨_, _, _, hitems, (takeLen_ok hlen).1, rfl⟩

theorem encode_of_decodeFrameInner {room : Nat} (h : decodeFrameInner room src = .ok (f, rest)) :
    ∃ bytes, encodeFrame f = .ok bytes ∧ src = bytes ++ rest ∧ TypedFrame f := by
  induction room generalizing src f rest with
  | zero => cases h
  | succ room ih =>
    rw [decodeFrameInner] at h
    obtain ⟨⟨tag, body⟩, htag, hread⟩ := bind_ok_iff.mp h
    obtain rfl : src = tag :: body := by
      cases src with
      | nil => cases htag
      | cons b src =>
        cases htag
        rfl
    dsimp only at hread
    split_ifs at hread with hnull hsimple herror hinteger hbulk harray hmap
    · cases hread
      exact ⟨[0x00], rfl, by rw [hnull]; rfl, .null⟩
    · obtain ⟨len, s, body, hs, rfl, rfl⟩ := takeSlice_ok hread
      obtain ⟨rfl, rfl, hutf8⟩ := takeString_ok hs
      refine ⟨_, by rw [encodeFrame], ?_, .simple hutf8⟩
      rw [hsimple, putSlice, cons_append, append_assoc]
    · obtain ⟨len, s, body, hs, rfl, rfl⟩ := takeSlice_ok hread
      obtain ⟨rfl, rfl, hutf8⟩ := takeString_ok hs
      refine ⟨_, by rw [encodeFrame], ?_, .error hutf8⟩
      rw [herror, putSlice, cons_append, append_assoc]
    · obtain ⟨⟨n, more⟩, hn, h⟩ := map_eq_ok.mp hread
      cases h
      obtain ⟨rfl, hrange⟩ := takeI64_ok hn
      refine ⟨_, by rw [encodeFrame], ?_, .integer hrange⟩
      rw [hinteger, cons_append]
    · obtain ⟨len, b, body, hb, rfl, rfl⟩ := takeSlice_ok hread
      obtain ⟨rfl, rfl⟩ := takeBytes_ok hb
      refine ⟨_, by rw [encodeFrame], ?_, .bulk b⟩
      rw [hbulk, putSlice, cons_append, append_assoc]
    · obtain ⟨count, items, body, hitems, rfl, rfl⟩ := takeItems_ok hread
      obtain ⟨parts, hparts, rfl, rfl, htyped⟩ := takeMany_ok (fun _ _ _ => ih) hitems
      refine ⟨0x05 :: (beBytes 4 items.length ++ parts.flatten), ?_, ?_, .array htyped⟩
      · rw [encodeFrame]
        exact map_eq_ok.mpr ⟨_, encodeItems_ok_iff.mpr ⟨parts, hparts, rfl⟩, rfl⟩
      · rw [harray, cons_append, append_assoc]
    · obtain ⟨count, pairs, body, hpairs, rfl, rfl⟩ := takeItems_ok hread
      have hpair : ∀ src p rest, takePair (decodeFrameInner room) src = .ok (p, rest) →
          ∃ b, encodePair p = .ok b ∧ src = b ++ rest ∧ (TypedFrame p.1 ∧ TypedFrame p.2) := by
        intro src p rest hp
        obtain ⟨⟨key, more⟩, hkey, hp⟩ := bind_ok_iff.mp hp
        obtain ⟨⟨value, rest'⟩, hvalue, hp⟩ := map_eq_ok.mp hp
        cases hp
        obtain ⟨k, hk, rfl, htypedk⟩ := ih hkey
        obtain ⟨v, hv, hmore, htypedv⟩ := ih hvalue
        refine ⟨k ++ v, encodePair_ok_iff.mpr ⟨k, v, hk, hv, rfl⟩, ?_, htypedk, htypedv⟩
        dsimp only at hmore
        rw [hmore, append_assoc]
      obtain ⟨parts, hparts, rfl, rfl, htyped⟩ := takeMany_ok hpair hpairs
      refine ⟨0x06 :: (beBytes 4 pairs.length ++ parts.flatten), ?_, ?_,
        .map (fun p hp => (htyped p hp).1) fun p hp => (htyped p hp).2⟩
      · rw [encodeFrame]
        exact map_eq_ok.mpr ⟨_, encodePairs_ok_iff.mpr ⟨parts, hparts, rfl⟩, rfl⟩
      · rw [hmap, cons_append, append_assoc]

theorem takeItems_mono {read read' : Reader α} {kind : List α → Frame}
    (hread : ∀ src r, read src = .ok r → read' src = .ok r) (h : takeItems read kind src = .ok r) :
    takeItems read' kind src = .ok r := by
  obtain ⟨len, hlen, h⟩ := bind_ok_iff.mp h
  obtain ⟨items, hitems, h⟩ := map_eq_ok.mp h
  exact bind_ok_iff.mpr ⟨len, hlen, map_eq_ok.mpr ⟨items, takeMany_mono hread hitems, h⟩⟩

theorem decodeFrameInner_succ {room : Nat}
    (h : decodeFrameInner room src = .ok r) : decodeFrameInner (room + 1) src = .ok r := by
  induction room generalizing src r with
  | zero => cases h
  | succ room ih =>
    rw [decodeFrameInner] at h ⊢
    obtain ⟨tag, htag, h⟩ := bind_ok_iff.mp h
    refine bind_ok_iff.mpr ⟨tag, htag, ?_⟩
    split_ifs at h ⊢ with hnull hsimple herror hinteger hbulk harray hmap
    · exact h
    · exact h
    · exact h
    · exact h
    · exact h
    · exact takeItems_mono (fun _ _ => ih) h
    · refine takeItems_mono ?_ h
      intro src p hp
      obtain ⟨k, hk, hp⟩ := bind_ok_iff.mp hp
      obtain ⟨v, hv, hp⟩ := map_eq_ok.mp hp
      exact bind_ok_iff.mpr ⟨k, ih hk, map_eq_ok.mpr ⟨v, ih hv, hp⟩⟩

theorem decodeFrameInner_mono {room room' : Nat} (hle : room ≤ room')
    (h : decodeFrameInner room src = .ok r) : decodeFrameInner room' src = .ok r := by
  induction hle with
  | refl => exact h
  | step _ ih => exact decodeFrameInner_succ ih

end

namespace RmpCodec

variable {src p q rest bytes : Bytes} {m : RmpMessage}

def headerBytes (requestId : UInt64) (msgType : MsgType) (n : Nat) : Bytes :=
  magic ++ [version, msgType.toByte] ++ beBytes 8 requestId.toNat ++ beBytes 4 n

theorem headerBytes_length (requestId : UInt64) (msgType : MsgType) (n : Nat) :
    (headerBytes requestId msgType n).length = headerLen := by
  simp [headerBytes, magic, headerLen]

theorem encode_ok_iff :
    encode m = .ok bytes ↔
      ∃ payload, encodeFrame m.frame = .ok payload ∧ payload.length ≤ maxRmpFrameLen ∧
        bytes = headerBytes m.requestId m.msgType payload.length ++ payload := by
  rw [encode, bind_ok_iff]
  constructor
  · rintro ⟨payload, hpayload, h⟩
    split_ifs at h with hlen
    cases h
    exact ⟨payload, hpayload, not_lt.mp hlen, rfl⟩
  · rintro ⟨payload, hpayload, hlen, rfl⟩
    exact ⟨payload, hpayload, if_neg (not_lt.mpr hlen)⟩

theorem fromByte_toByte (t : MsgType) : MsgType.fromByte t.toByte = .ok t := by
  cases t <;> rfl

theorem toByte_of_fromByte {b : UInt8} {t : MsgType} (h : MsgType.fromByte b = .ok t) :
    t.toByte = b := by
  unfold MsgType.fromByte at h
  split_ifs at h with hrequest hresponse
  · cases h
    exact hrequest.symm
  · cases h
    exact hresponse.symm

theorem header_append (hp : headerLen ≤ p.length) (q : Bytes) : header (p ++ q) = header p := by
  have h16 : 16 ≤ p.length := hp
  have htake : (p ++ q).take 2 = p.take 2 := take_append_of_le_length (by omega)
  have hversion : (p ++ q).getD 2 0 = p.getD 2 0 := getD_append _ _ _ _ (by omega)
  have htype : (p ++ q).getD 3 0 = p.getD 3 0 := getD_append _ _ _ _ (by omega)
  have hid : ((p ++ q).drop 4).take 8 = (p.drop 4).take 8 := by
    rw [drop_append_of_le_length (by omega), take_append_of_le_length]
    rw [length_drop]
    omega
  have hlen : payloadLen (p ++ q) = payloadLen p := by
    rw [payloadLen, drop_append_of_le_length (by omega), take_append_of_le_length]
    · rfl
    · rw [length_drop]
      omega
  rw [header, header, htake, hversion, htype, hid, hlen]

theorem header_headerBytes (requestId : UInt64) (msgType : MsgType) {n : Nat}
    (hn : n ≤ maxRmpFrameLen) :
    header (headerBytes requestId msgType n) = .ok (msgType, requestId, n) := by
  have hlt : n < 256 ^ 4 := lt_of_le_of_lt hn (by decide)
  have hidlt : requestId.toNat < 256 ^ 8 := requestId.toNat_lt
  have hid : ((headerBytes requestId msgType n).drop 4).take 8 = beBytes 8 requestId.toNat :=
    take_left' (length_beBytes _ _)
  have hlen : payloadLen (headerBytes requestId msgType n) = n := by
    have hfront : (magic ++ [version, msgType.toByte] ++ beBytes 8 requestId.toNat).length = 12 := by
      simp [magic]
    rw [payloadLen, headerBytes, drop_left' hfront,
      take_of_length_le (le_of_eq (length_beBytes _ _)), ofBeBytes_beBytes hlt]
  have htype : (headerBytes requestId msgType n).getD 3 0 = msgType.toByte := rfl
  have hmagic : ¬ (headerBytes requestId msgType n).take 2 ≠ magic := not_not.mpr rfl
  have hversion : ¬ (headerBytes requestId msgType n).getD 2 0 ≠ version := not_not.mpr rfl
  rw [header, if_neg hmagic, if_neg hversion, htype, fromByte_toByte]
  simp only [Except.bind, hlen, hid, ofBeBytes_beBytes hidlt,
    if_neg (not_lt.mpr hn), UInt64.ofNat_toNat]

theorem take_headerLen (hlen : headerLen ≤ src.length) :
    src.take headerLen = src.take 2 ++ [src.getD 2 0, src.getD 3 0] ++ (src.drop 4).take 8 ++
      (src.drop 12).take 4 := by
  have h16 : 16 ≤ src.length := hlen
  have hfirst : src.take 4 = src.take 2 ++ [src.getD 2 0, src.getD 3 0] := by
    rcases src with _ | ⟨a, _ | ⟨b, _ | ⟨c, _ | ⟨d, more⟩⟩⟩⟩
    · simp at h16
    · simp at h16
    · simp at h16
    · simp at h16
    · rfl
  have hsecond : src.take (4 + 8) = src.take 4 ++ (src.drop 4).take 8 := take_add
  have hthird : src.take (12 + 4) = src.take 12 ++ (src.drop 12).take 4 := take_add
  rw [← hfirst, ← hsecond, ← hthird]
  rfl

theorem headerBytes_of_header (hlen : headerLen ≤ src.length) {requestId : UInt64}
    {msgType : MsgType} {n : Nat} (h : header src = .ok (msgType, requestId, n)) :
    src.take headerLen = headerBytes requestId msgType n ∧ n ≤ maxRmpFrameLen ∧
      n = payloadLen src := by
  have h16 : 16 ≤ src.length := hlen
  unfold header at h
  split_ifs at h with hmagic hversion hmax
  · obtain ⟨t, -, h⟩ := bind_ok_iff.mp h
    cases h
  obtain ⟨t, ht, h⟩ := bind_ok_iff.mp h
  rw [Except.ok.injEq, Prod.mk.injEq, Prod.mk.injEq] at h
  obtain ⟨rfl, rfl, rfl⟩ := h
  have hidlen : ((src.drop 4).take 8).length = 8 := by
    rw [length_take, length_drop]
    omega
  have hlenlen : ((src.drop 12).take 4).length = 4 := by
    rw [length_take, length_drop]
    omega
  have hid : (UInt64.ofNat (ofBeBytes ((src.drop 4).take 8))).toNat =
      ofBeBytes ((src.drop 4).take 8) := by
    have hlt := ofBeBytes_lt ((src.drop 4).take 8)
    rw [hidlen] at hlt
    exact UInt64.toNat_ofNat_of_lt' hlt
  refine ⟨?_, not_lt.mp hmax, rfl⟩
  rw [take_headerLen hlen, headerBytes, hid, beBytes_ofBeBytes hidlen, payloadLen,
    beBytes_ofBeBytes hlenlen,
    not_not.mp hmagic, not_not.mp hversion, toByte_of_fromByte ht]

theorem decode_encode (hm : TypedFrame m.frame) (hdepth : m.frame.nesting ≤ maxRmpNestingDepth)
    (h : encode m = .ok bytes) (rest : Bytes) : decode (bytes ++ rest) = (.item m, rest) := by
  obtain ⟨payload, hpayload, hlen, rfl⟩ := encode_ok_iff.mp h
  have hheader := headerBytes_length m.requestId m.msgType payload.length
  have hread : decodeFrame payload = .ok (m.frame, []) := by
    have hinner := decodeFrameInner_encode hm (lt_succ_of_le hdepth) hpayload hlen []
    rwa [append_nil] at hinner
  have hshort : ¬ (headerBytes m.requestId m.msgType payload.length ++ payload ++ rest).length <
      headerLen := by
    rw [length_append, length_append, hheader]
    omega
  have htotal : ¬ (headerBytes m.requestId m.msgType payload.length ++ payload ++ rest).length <
      headerLen + payload.length := by
    rw [length_append, length_append, hheader]
    omega
  have hbody : ((headerBytes m.requestId m.msgType payload.length ++ payload ++ rest).drop
      headerLen).take payload.length = payload := by
    rw [append_assoc, drop_left' hheader, take_left]
  have hrest : (headerBytes m.requestId m.msgType payload.length ++ payload ++ rest).drop
      (headerLen + payload.length) = rest := by
    apply drop_left'
    rw [length_append, hheader]
  have hfields : header (headerBytes m.requestId m.msgType payload.length ++ payload ++ rest) =
      .ok (m.msgType, m.requestId, payload.length) := by
    rw [append_assoc, header_append (le_of_eq hheader.symm), header_headerBytes _ _ hlen]
  rw [decode, if_neg hshort, hfields]
  simp only [if_neg htotal, hbody, hread, hrest]

def payload (src : Bytes) : Bytes := (src.drop headerLen).take (payloadLen src)

theorem decode_item (h : decode src = (.item m, rest)) :
    headerLen + payloadLen src ≤ src.length ∧
      src.take headerLen = headerBytes m.requestId m.msgType (payloadLen src) ∧
      payloadLen src ≤ maxRmpFrameLen ∧
      (∃ left, decodeFrame (payload src) = .ok (m.frame, left)) ∧
      rest = src.drop (headerLen + payloadLen src) := by
  unfold decode at h
  split_ifs at h with hshort
  · cases h
  cases hfields : header src with
  | error e =>
    rw [hfields] at h
    cases h
  | ok fields =>
    obtain ⟨msgType, requestId, n⟩ := fields
    rw [hfields] at h
    dsimp only at h
    split_ifs at h with htotal
    · cases h
    cases hframe : decodeFrame ((src.drop headerLen).take n) with
    | error e =>
      rw [hframe] at h
      cases h
    | ok r =>
      obtain ⟨frame, left⟩ := r
      rw [hframe] at h
      cases h
      obtain ⟨hheader, hmax, rfl⟩ := headerBytes_of_header (not_lt.mp hshort) hfields
      exact ⟨not_lt.mp htotal, hheader, hmax, ⟨left, hframe⟩, rfl⟩

theorem decode_wait (h : (decode src).1 = .wait) : (decode src).2 = src := by
  unfold decode at h ⊢
  split_ifs at h ⊢ with hshort
  · rfl
  cases hfields : header src with
  | error e => rfl
  | ok fields =>
    obtain ⟨msgType, requestId, n⟩ := fields
    rw [hfields] at h
    dsimp only at h ⊢
    split_ifs at h ⊢ with htotal
    · rfl
    cases hframe : decodeFrame ((src.drop headerLen).take n) with
    | error e =>
      rw [hframe] at h
      cases h
    | ok r =>
      rw [hframe] at h
      cases h

theorem decode_append (p q : Bytes) (h : (decode p).1 ≠ .wait) :
    decode (p ++ q) = ((decode p).1, (decode p).2 ++ q) := by
  unfold decode at h ⊢
  by_cases hshort : p.length < headerLen
  · rw [if_pos hshort] at h
    exact absurd rfl h
  have hshort' : ¬ (p ++ q).length < headerLen := by
    rw [length_append]
    omega
  rw [if_neg hshort] at h ⊢
  rw [if_neg hshort', header_append (not_lt.mp hshort)]
  cases hfields : header p with
  | error e => rfl
  | ok fields =>
    obtain ⟨msgType, requestId, n⟩ := fields
    rw [hfields] at h
    dsimp only at h ⊢
    by_cases htotal : p.length < headerLen + n
    · rw [if_pos htotal] at h
      exact absurd rfl h
    have htotal' : ¬ (p ++ q).length < headerLen + n := by
      rw [length_append]
      omega
    have hbody : ((p ++ q).drop headerLen).take n = (p.drop headerLen).take n := by
      rw [drop_append_of_le_length (not_lt.mp hshort), take_append_of_le_length]
      rw [length_drop]
      omega
    have hrest : (p ++ q).drop (headerLen + n) = p.drop (headerLen + n) ++ q :=
      drop_append_of_le_length (not_lt.mp htotal)
    rw [if_neg htotal, if_neg htotal', hbody, hrest]
    cases decodeFrame ((p.drop headerLen).take n) with
    | error e => rfl
    | ok r => rfl

theorem decode_progress (h : (decode src).1 = .item m) : (decode src).2.length < src.length := by
  have hdec : decode src = (.item m, (decode src).2) := Prod.ext h rfl
  obtain ⟨hlen, -, -, -, hrest⟩ := decode_item hdec
  have hpos : 0 < headerLen := by decide
  rw [hrest, length_drop]
  omega

def decoder (bound : Nat) : IncrementalDecoder RmpMessage UInt8 Bytes where
  decode := decode
  bound := bound
  nil := rfl
  wait_keeps _ := decode_wait
  progress _ _ _ := decode_progress
  append p q _ := decode_append p q

theorem encode_pos (h : encode m = .ok bytes) : 0 < bytes.length := by
  obtain ⟨payload, -, -, rfl⟩ := encode_ok_iff.mp h
  exact succ_pos _

theorem forall₂_decode {messages : List RmpMessage} {parts : List Bytes}
    (hencoded : Forall₂ (fun m b => encode m = .ok b) messages parts)
    (htyped : ∀ m ∈ messages, TypedFrame m.frame)
    (hdepth : ∀ m ∈ messages, m.frame.nesting ≤ maxRmpNestingDepth) :
    Forall₂ (fun m b => 0 < b.length ∧ ∀ rest, decode (b ++ rest) = (.item m, rest))
      messages parts := by
  induction hencoded with
  | nil => exact .nil
  | cons hencode _ ih =>
    refine .cons ⟨encode_pos hencode, ?_⟩ (ih ?_ ?_)
    · exact decode_encode (htyped _ mem_cons_self) (hdepth _ mem_cons_self) hencode
    · intro m hm
      exact htyped m (mem_cons_of_mem _ hm)
    · intro m hm
      exact hdepth m (mem_cons_of_mem _ hm)

end RmpCodec

open RmpCodec

/-- The encodings of messages, one after another and cut into reads in any way, are read back as
exactly these messages; a call that waits for more leaves the buffer as it is. -/
theorem stream_reads_back {messages : List RmpMessage} {parts chunks : List Bytes}
    (hencoded : Forall₂ (fun m b => RmpCodec.encode m = .ok b) messages parts)
    (htyped : ∀ m ∈ messages, TypedFrame m.frame)
    (hdepth : ∀ m ∈ messages, m.frame.nesting ≤ maxRmpNestingDepth)
    (hchunks : chunks.flatten = parts.flatten) :
    (RmpCodec.decoder (parts.flatten.length + 1)).readAll chunks = ⟨messages, .waiting []⟩ ∧
      ∀ src, (RmpCodec.decode src).1 = .wait → (RmpCodec.decode src).2 = src := by
  have hparts : Forall₂ (fun m b => 0 < b.length ∧
      ∀ rest, (decoder (parts.flatten.length + 1)).decode (b ++ rest) = (.item m, rest))
      messages parts := forall₂_decode hencoded htyped hdepth
  have hfits : chunks.flatten.length < (decoder (parts.flatten.length + 1)).bound := by
    rw [hchunks]
    exact lt_succ_self _
  refine ⟨?_, fun _ => decode_wait⟩
  rw [IncrementalDecoder.readAll_eq_drain hfits, hchunks, IncrementalDecoder.drain_parts hparts]

theorem stream_reads_back_pair :
    (RmpCodec.decoder 41).readAll
        [[0x52, 0x4D, 1, 0, 0], [0, 0, 0, 0, 0, 0, 7, 0, 0, 0, 1, 0,
          0x52, 0x4D, 1, 1, 0, 0, 0, 0, 0, 0, 0, 8, 0, 0, 0, 7, 5, 0, 0, 0, 2, 0, 0]] =
      ⟨[⟨7, .request, .null⟩, ⟨8, .response, .array [.null, .null]⟩], .waiting []⟩ := by
  have hencoded : Forall₂ (fun m b => RmpCodec.encode m = .ok b)
      [⟨7, .request, .null⟩, ⟨8, .response, .array [.null, .null]⟩]
      [[0x52, 0x4D, 1, 0, 0, 0, 0, 0, 0, 0, 0, 7, 0, 0, 0, 1, 0],
        [0x52, 0x4D, 1, 1, 0, 0, 0, 0, 0, 0, 0, 8, 0, 0, 0, 7, 5, 0, 0, 0, 2, 0, 0]] :=
    .cons rfl (.cons rfl .nil)
  refine (stream_reads_back hencoded ?_ ?_ rfl).1
  · intro m hm
    rcases mem_pair.mp hm with rfl | rfl
    · exact .null
    · refine .array fun f hf => ?_
      rcases mem_pair.mp hf with rfl | rfl <;> exact .null
  · intro m hm
    rcases mem_pair.mp hm with rfl | rfl <;> decide

/-- `count` values of the wire format, one after another: the tag and what it asks for. -/
inductive Values : Nat → Bytes → Prop where
  | nil : Values 0 []
  | null {n : Nat} {rest : Bytes} (h : Values n rest) : Values (n + 1) (0x00 :: rest)
  | simple {n : Nat} {rest s : Bytes} (hs : validUtf8 s = true) (h : Values n rest) :
      Values (n + 1) (0x01 :: (beBytes 4 s.length ++ s) ++ rest)
  | error {n : Nat} {rest s : Bytes} (hs : validUtf8 s = true) (h : Values n rest) :
      Values (n + 1) (0x02 :: (beBytes 4 s.length ++ s) ++ rest)
  | integer {n : Nat} {rest b : Bytes} (hb : b.length = 8) (h : Values n rest) :
      Values (n + 1) (0x03 :: b ++ rest)
  | bulk {n : Nat} {rest : Bytes} (b : Bytes) (h : Values n rest) :
      Values (n + 1) (0x04 :: (beBytes 4 b.length ++ b) ++ rest)
  | array {n count : Nat} {rest body : Bytes} (hbody : Values count body) (h : Values n rest) :
      Values (n + 1) (0x05 :: (beBytes 4 count ++ body) ++ rest)
  | map {n count : Nat} {rest body : Bytes} (hbody : Values (2 * count) body) (h : Values n rest) :
      Values (n + 1) (0x06 :: (beBytes 4 count ++ body) ++ rest)

section

variable {items : List Frame} {body b : Bytes} {f : Frame}

theorem encodeItems_cons (hf : encodeFrame f = .ok b) (hitems : encodeItems items = .ok body) :
    encodeItems (f :: items) = .ok (b ++ body) := by
  rw [encodeItems, hf]
  exact map_eq_ok.mpr ⟨body, hitems, rfl⟩

theorem pairs_of_items {count : Nat} (hlen : items.length = 2 * count)
    (htyped : ∀ f ∈ items, TypedFrame f) (h : encodeItems items = .ok body) :
    ∃ pairs, pairs.length = count ∧ TypedFrame (.map pairs) ∧ encodePairs pairs = .ok body := by
  induction count generalizing items body with
  | zero =>
    obtain rfl := length_eq_zero_iff.mp hlen
    exact ⟨[], rfl, .map nofun nofun, h⟩
  | succ count ih =>
    match items, hlen with
    | key :: value :: items, hlen =>
      simp only [forall_mem_cons] at htyped
      obtain ⟨hkey, hvalue, hrest⟩ := htyped
      obtain ⟨parts, hparts, rfl⟩ := encodeItems_ok_iff.mp h
      cases hparts with | cons hk hparts
      cases hparts with | cons hv hparts
      obtain ⟨pairs, rfl, htyped, hpairs⟩ := ih (by simpa [mul_succ] using hlen) hrest
        (encodeItems_ok_iff.mpr ⟨_, hparts, rfl⟩)
      cases htyped with | map hkeys hvalues
      refine ⟨(key, value) :: pairs, rfl, .map ?_ ?_, ?_⟩
      · simpa using ⟨hkey, fun k v => hkeys (k, v)⟩
      · simpa using ⟨hvalue, fun k v => hvalues (k, v)⟩
      · rw [encodePairs, encodePair_ok_iff.mpr ⟨_, _, hk, hv, rfl⟩]
        exact map_eq_ok.mpr ⟨_, hpairs, by simp⟩

/-- Whatever keeps to the grammar is what some frames are written as. -/
theorem Values.encoded {count : Nat} (h : Values count b) :
    ∃ items, items.length = count ∧ (∀ f ∈ items, TypedFrame f) ∧ encodeItems items = .ok b := by
  have hcons {n : Nat} {f : Frame} {head rest : Bytes} (hf : encodeFrame f = .ok head)
      (htyped : TypedFrame f)
      (h : ∃ items, items.length = n ∧ (∀ f ∈ items, TypedFrame f) ∧ encodeItems items = .ok rest) :
      ∃ items, items.length = n + 1 ∧ (∀ f ∈ items, TypedFrame f) ∧
        encodeItems items = .ok (head ++ rest) := by
    obtain ⟨items, rfl, hitems, hrest⟩ := h
    exact ⟨f :: items, rfl, forall_mem_cons.mpr ⟨htyped, hitems⟩, encodeItems_cons hf hrest⟩
  induction h with
  | nil => exact ⟨[], rfl, nofun, rfl⟩
  | null _ ih => exact hcons (by rw [encodeFrame]) .null ih
  | simple hs _ ih => exact hcons (by rw [encodeFrame, putSlice]) (.simple hs) ih
  | error hs _ ih => exact hcons (by rw [encodeFrame, putSlice]) (.error hs) ih
  | @integer _ _ b hb _ ih =>
    have htake : takeI64 b = .ok (wrapI64 (ofBeBytes (b.take 8)), []) := by
      rw [takeI64, if_neg (by omega), drop_of_length_le (by omega)]
    obtain ⟨hput, hn⟩ := takeI64_ok htake
    rw [append_nil] at hput
    exact hcons (by rw [encodeFrame, ← hput]) (.integer hn) ih
  | bulk b _ ih => exact hcons (by rw [encodeFrame, putSlice]) (.bulk b) ih
  | array _ _ ihbody ih =>
    obtain ⟨items, rfl, hitems, hbody⟩ := ihbody
    exact hcons (by rw [encodeFrame, hbody]; rfl) (.array hitems) ih
  | map _ _ ihbody ih =>
    obtain ⟨items, hlen, hitems, hbody⟩ := ihbody
    obtain ⟨pairs, rfl, htyped, hpairs⟩ := pairs_of_items hlen hitems hbody
    exact hcons (by rw [encodeFrame, hpairs]; rfl) htyped ih

/-- What a frame is written as keeps to the grammar. -/
theorem values_of_encode (htyped : TypedFrame f) {n : Nat} {rest : Bytes}
    (hf : encodeFrame f = .ok b) (h : Values n rest) : Values (n + 1) (b ++ rest) := by
  induction htyped generalizing b n rest with
  | array hitems ih =>
    rw [encodeFrame] at hf
    obtain ⟨body, hbody, rfl⟩ := map_eq_ok.mp hf
    obtain ⟨parts, hparts, rfl⟩ := encodeItems_ok_iff.mp hbody
    refine .array ?_ h
    clear hitems hbody hf
    induction hparts with
    | nil => exact .nil
    | cons hb _ ihs =>
      exact ih _ mem_cons_self hb (ihs fun f hf => ih f (mem_cons_of_mem _ hf))
  | map hkeys hvalues ihk ihv =>
    rw [encodeFrame] at hf
    obtain ⟨body, hbody, rfl⟩ := map_eq_ok.mp hf
    obtain ⟨parts, hparts, rfl⟩ := encodePairs_ok_iff.mp hbody
    refine .map ?_ h
    clear hkeys hvalues hbody hf
    induction hparts with
    | nil => exact .nil
    | cons hb _ ihs =>
      obtain ⟨k, v, hk, hv, rfl⟩ := encodePair_ok_iff.mp hb
      have hrest := ihs (fun p hp => ihk p (mem_cons_of_mem _ hp))
        fun p hp => ihv p (mem_cons_of_mem _ hp)
      rw [flatten_cons, append_assoc]
      exact ihk _ mem_cons_self hk (ihv _ mem_cons_self hv hrest)
  | _ =>
    rw [encodeFrame] at hf
    cases hf <;> constructor <;> first | assumption | exact length_beBytes 8 _

end

/-- The payload of a decoded message begins with a value. The message is written as the bytes it was
read from exactly when that value, by its tags and lengths, ends where the payload does. -/
theorem rewritten_iff_exact {src rest : Bytes} {m : RmpMessage}
    (h : RmpCodec.decode src = (.item m, rest)) :
    (∃ value behind, payload src = value ++ behind ∧ Values 1 value) ∧
      ∀ value behind, payload src = value ++ behind → Values 1 value →
        (RmpCodec.encode m = .ok (src.take (src.length - rest.length)) ↔ behind = []) := by
  obtain ⟨hlen, hheader, hmax, ⟨left, hframe⟩, rfl⟩ := decode_item h
  have hpayload : (payload src).length = payloadLen src := by
    rw [payload, length_take, length_drop]
    omega
  have hconsumed :
      src.take (src.length - (src.drop (headerLen + payloadLen src)).length) =
        headerBytes m.requestId m.msgType (payloadLen src) ++ payload src := by
    have htotal : src.length - (src.drop (headerLen + payloadLen src)).length =
        headerLen + payloadLen src := by
      rw [length_drop]
      omega
    rw [htotal, take_add, hheader, payload]
  obtain ⟨written, hwritten, hbegins, htyped⟩ := encode_of_decodeFrameInner hframe
  refine ⟨⟨written, left, hbegins, ?_⟩, fun value behind hsplit hvalue => ?_⟩
  · rw [← append_nil written]
    exact values_of_encode htyped hwritten .nil
  obtain ⟨items, hone, htyped, hitems⟩ := hvalue.encoded
  obtain ⟨f, rfl⟩ := length_eq_one_iff.mp hone
  obtain ⟨parts, hparts, rfl⟩ := encodeItems_ok_iff.mp hitems
  cases hparts with | cons hf hnil
  cases hnil
  rw [flatten_cons, flatten_nil, append_nil] at hsplit
  have hshort : (payload src).length ≤ maxRmpFrameLen := hpayload ▸ hmax
  have hread := decodeFrameInner_encode (htyped f mem_cons_self) (lt_succ_self f.nesting) hf
    (by rw [hsplit, length_append] at hshort; omega) behind
  rw [← hsplit] at hread
  -- in enough room for both, one reading of the payload
  have hboth := decodeFrameInner_mono (le_max_left _ (maxRmpNestingDepth + 1)) hread
  rw [decodeFrameInner_mono (le_max_right (f.nesting + 1) _) hframe, Except.ok.injEq,
    Prod.mk.injEq] at hboth
  obtain ⟨rfl, rfl⟩ := hboth
  rw [hconsumed, encode_ok_iff]
  constructor
  · rintro ⟨bytes, hbytes, -, heq⟩
    rw [hf, Except.ok.injEq] at hbytes
    subst hbytes
    have hsame := (append_inj heq (by rw [headerBytes_length, headerBytes_length])).2
    rwa [hsplit, append_right_eq_self] at hsame
  · rintro rfl
    rw [append_nil] at hsplit
    exact ⟨_, hf, hsplit ▸ hshort, by rw [← hsplit, hpayload]⟩

def exactNull : Bytes := [0x52, 0x4D, 1, 1, 0, 0, 0, 0, 0, 0, 0, 7, 0, 0, 0, 1, 0]

def paddedNull : Bytes := [0x52, 0x4D, 1, 1, 0, 0, 0, 0, 0, 0, 0, 7, 0, 0, 0, 2, 0, 9]

theorem rewritten_exactNull :
    RmpCodec.encode ⟨7, .response, .null⟩ = .ok exactNull ∧
      RmpCodec.encode ⟨7, .response, .null⟩ ≠ .ok paddedNull := by
  have hexact : RmpCodec.decode exactNull = (.item ⟨7, .response, .null⟩, []) := rfl
  have hpadded : RmpCodec.decode paddedNull = (.item ⟨7, .response, .null⟩, []) := rfl
  refine ⟨((rewritten_iff_exact hexact).2 [0] [] rfl (.null .nil)).mpr rfl, fun h => ?_⟩
  cases ((rewritten_iff_exact hpadded).2 [0] [9] rfl (.null .nil)).mp h

/-- A byte behind the value is dropped without a word. -/
theorem padding_accepted :
    RmpCodec.decode paddedNull = (.item ⟨7, .response, .null⟩, []) ∧
      RmpCodec.decode exactNull = (.item ⟨7, .response, .null⟩, []) ∧
      RmpCodec.encode ⟨7, .response, .null⟩ = .ok exactNull ∧ exactNull ≠ paddedNull := by
  exact ⟨rfl, rfl, rfl, by decide⟩

end Rmp

end RocketMem
