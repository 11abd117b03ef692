import RocketMem.Framework.Transition
import RocketMem.Server.Reachable

namespace RocketMem

open List

variable {F : Type} [F64 F]

structure ScanPage (F : Type) [F64 F] where
  env : Env
  store : Store F
  keys : List Bytes

structure Scanning (F : Type) [F64 F] where
  env : Env
  store : Store F
  cursor : Nat
  pages : List (ScanPage F)

/-- The client's next call, or what others do in between: an operation on a key, a sweep of one
shard, or time that passes. -/
inductive ScanEvent (F : Type) [F64 F] where
  | call
  | operation (key : Bytes) (op : KeyOp F)
  | sweep (shard : Fin shardCount)
  | wait (env : Env)

def ScanEvent.isCall : ScanEvent F → Bool
  | call => true
  | _ => false

namespace Scanning

def start (env : Env) (st : Store F) : Scanning F := ⟨env, st, 0, []⟩

def Finished (s : Scanning F) : Prop := s.pages ≠ [] ∧ s.cursor = 0

instance (s : Scanning F) : Decidable s.Finished := inferInstanceAs (Decidable (_ ∧ _))

def returned (s : Scanning F) : List Bytes := s.pages.flatMap ScanPage.keys

def call (s : Scanning F) : Scanning F :=
  match runEngine s.env (Engine.scan s.cursor) s.store with
  | (some (next, keys), st) => ⟨s.env, st, next, s.pages ++ [⟨s.env, s.store, keys⟩]⟩
  | (none, st) => { s with store := st }

def step (s : Scanning F) : ScanEvent F → Scanning F
  | .call => if s.Finished then s else s.call
  | .operation key op => { s with store := (op.exec s.env.clock.mono key s.store).2 }
  | .sweep shard => { s with store := s.store.activeExpireCycle s.env.clock.mono shard }
  | .wait env => { s with env := env }

def Shows (k : Bytes) (s : Scanning F) : Prop := (s.store.live s.env.clock k).isSome = true

end Scanning

structure ScanPage.Exact (page : ScanPage F) (i : Nat) : Prop where
  nodup : page.keys.Nodup
  mem : ∀ k, k ∈ page.keys ↔
    (page.store.live page.env.clock k).isSome = true ∧ (shardIndex k).val = i

theorem mem_shardKeys (env : Env) (st : Store F) (i : Fin shardCount) (k : Bytes) :
    k ∈ env.iter ((st.shards i).keys env.clock.mono) ↔
      (st.live env.clock k).isSome = true ∧ shardIndex k = i := by
  have hslot : (st.live env.clock k).isSome =
      (((st.shards (shardIndex k)).live env.clock.mono).lookup k).isSome := by
    rw [Store.live, Store.shardFor, Shard.slot_eq_live, Option.isSome_map]
  rw [← Multiset.mem_coe, env.iter_eq, Finset.mem_val, Shard.keys, Finmap.mem_keys,
    ← Finmap.lookup_isSome, hslot]
  constructor
  · intro h
    have hlive : k ∈ (st.shards i).live env.clock.mono := Finmap.lookup_isSome.mp h
    obtain rfl := st.routed i k (HashMap.mem_of_mem_retain hlive)
    exact ⟨h, rfl⟩
  · rintro ⟨h, rfl⟩
    exact h

namespace Scanning

variable {s : Scanning F}

section

variable {s : Scanning F}

theorem call_of_lt (h : s.cursor < shardCount) :
    s.call = ⟨s.env, s.store, if s.cursor + 1 < shardCount then s.cursor + 1 else 0,
      s.pages ++ [⟨s.env, s.store,
        s.env.iter ((s.store.shards ⟨s.cursor, h⟩).keys s.env.clock.mono)⟩]⟩ := by
  have hscan : runEngine s.env (Engine.scan s.cursor) s.store =
      (some (if s.cursor + 1 < shardCount then s.cursor + 1 else 0,
        s.env.iter ((s.store.shards ⟨s.cursor, h⟩).keys s.env.clock.mono)), s.store) := by
    rw [Engine.scan, dif_pos h]
    rfl
  rw [call, hscan]

theorem exact_page (h : s.cursor < shardCount) :
    ScanPage.Exact ⟨s.env, s.store,
      s.env.iter ((s.store.shards ⟨s.cursor, h⟩).keys s.env.clock.mono)⟩ s.cursor := by
  refine ⟨?_, fun k => ?_⟩
  · rw [← Multiset.coe_nodup, s.env.iter_eq]
    exact Finset.nodup _
  · rw [mem_shardKeys, Fin.ext_iff]

end

structure InOrder (s : Scanning F) : Prop where
  counted : s.pages.length < shardCount ∧ s.cursor = s.pages.length ∨
    s.pages.length = shardCount ∧ s.cursor = 0
  exact : ∀ (i : Nat) (page : ScanPage F), s.pages[i]? = some page → page.Exact i

theorem inOrder_start (env : Env) (st : Store F) : (start env st).InOrder where
  counted := .inl ⟨(by decide : 0 < shardCount), rfl⟩
  exact i page h := by
    rw [start, getElem?_nil] at h
    cases h

theorem InOrder.finished_iff (h : s.InOrder) : s.Finished ↔ s.pages.length = shardCount := by
  rcases h.counted with ⟨hlt, hcursor⟩ | ⟨hlen, hcursor⟩
  · refine ⟨?_, fun hlen => absurd hlen hlt.ne⟩
    rintro ⟨hne, hzero⟩
    rw [hcursor] at hzero
    exact absurd (length_eq_zero_iff.mp hzero) hne
  · refine ⟨fun _ => hlen, fun _ => ⟨?_, hcursor⟩⟩
    rintro hnil
    rw [hnil] at hlen
    cases hlen

theorem InOrder.running (h : s.InOrder) (hrunning : ¬ s.Finished) :
    s.cursor < shardCount ∧ s.cursor = s.pages.length := by
  have hlt := h.counted.resolve_right fun hend => hrunning (h.finished_iff.mpr hend.1)
  exact ⟨hlt.2 ▸ hlt.1, hlt.2⟩

theorem InOrder.pages_le (h : s.InOrder) : s.pages.length ≤ shardCount := by
  rcases h.counted with h | h
  · exact h.1.le
  · exact h.1.le

theorem InOrder.call (h : s.InOrder) (hrunning : ¬ s.Finished) : s.call.InOrder := by
  obtain ⟨hcursor, hlen⟩ := h.running hrunning
  rw [call_of_lt hcursor]
  refine ⟨?_, ?_⟩
  · simp only [length_append, length_singleton]
    split_ifs <;> omega
  · intro i page hpage
    rw [getElem?_append] at hpage
    split_ifs at hpage with hi
    · exact h.exact i page hpage
    · rw [getElem?_singleton] at hpage
      split_ifs at hpage with hzero
      cases hpage
      have heq : i = s.cursor := by omega
      exact heq ▸ exact_page hcursor

theorem InOrder.step (h : s.InOrder) (e : ScanEvent F) : (s.step e).InOrder := by
  cases e with
  | call =>
    unfold Scanning.step
    split_ifs with hdone
    · exact h
    · exact h.call hdone
  | operation key op | sweep shard | wait env => exact ⟨h.counted, h.exact⟩

theorem InOrder.run (h : s.InOrder) (es : List (ScanEvent F)) :
    (es.foldl Scanning.step s).InOrder := by
  induction es generalizing s with
  | nil => exact h
  | cons e es ih => exact ih (h.step e)

theorem InOrder.pages_length (h : s.InOrder) (es : List (ScanEvent F)) :
    (es.foldl Scanning.step s).pages.length =
      min shardCount (s.pages.length + es.countP ScanEvent.isCall) := by
  induction es generalizing s with
  | nil =>
    have hle := h.pages_le
    simp only [foldl_nil, countP_nil]
    omega
  | cons e es ih =>
    rw [foldl_cons, ih (h.step e), countP_cons]
    cases e with
    | call =>
      have hone : (s.step .call).pages.length = min shardCount (s.pages.length + 1) := by
        unfold Scanning.step
        split_ifs with hdone
        · rw [h.finished_iff.mp hdone]
          omega
        · obtain ⟨hcursor, hlen⟩ := h.running hdone
          rw [call_of_lt hcursor]
          simp only [length_append, length_singleton]
          omega
      rw [hone]
      simp only [ScanEvent.isCall, if_true]
      omega
    | operation key op => rfl
    | sweep shard => rfl
    | wait env => rfl

theorem InOrder.returned_nodup (h : s.InOrder) : s.returned.Nodup := by
  refine nodup_flatMap.mpr ⟨?_, ?_⟩
  · intro page hpage
    obtain ⟨i, hi⟩ := mem_iff_getElem?.mp hpage
    exact (h.exact i page hi).nodup
  · refine pairwise_iff_getElem.mpr fun i j hi hj hij => ?_
    intro k hki hkj
    have hleft := ((h.exact i _ (getElem?_eq_getElem hi)).mem k).mp hki
    have hright := ((h.exact j _ (getElem?_eq_getElem hj)).mem k).mp hkj
    exact hij.ne (hleft.2.symm.trans hright.2)

theorem pages_show {k : Bytes} {es : List (ScanEvent F)}
    (h : Throughout Scanning.step (Shows k) s es) (hs : s.InOrder)
    (hpages : ∀ page ∈ s.pages, (page.store.live page.env.clock k).isSome = true) :
    ∀ page ∈ (es.foldl Scanning.step s).pages,
      (page.store.live page.env.clock k).isSome = true := by
  induction es generalizing s with
  | nil => exact hpages
  | cons e es ih =>
    refine ih h.2 (hs.step e) ?_
    cases e with
    | call =>
      unfold Scanning.step
      split_ifs with hdone
      · exact hpages
      · rw [call_of_lt (hs.running hdone).1]
        intro page hpage
        rcases mem_append.mp hpage with hpage | hpage
        · exact hpages page hpage
        · obtain rfl := mem_singleton.mp hpage
          exact h.1
    | operation key op => exact hpages
    | sweep shard => exact hpages
    | wait env => exact hpages

end Scanning

/-- However operations, sweeps and the passing of time fall between the calls: the iteration ends
with the call that makes as many as there are shards, no key is returned twice, each key returned
was live when its shard was read, and a key that is live throughout is returned. -/
theorem full_scan_exact (env : Env) (st : Store F) (es : List (ScanEvent F)) (s : Scanning F)
    (hs : s = es.foldl Scanning.step (.start env st)) :
    s.pages.length = min shardCount (es.countP ScanEvent.isCall) ∧
      (s.Finished ↔ s.pages.length = shardCount) ∧ s.returned.Nodup ∧
      (∀ (i : Nat) (page : ScanPage F), s.pages[i]? = some page → ∀ k ∈ page.keys,
        (page.store.live page.env.clock k).isSome = true ∧ (shardIndex k).val = i) ∧
      ∀ k, Throughout Scanning.step (Scanning.Shows k) (.start env st) es → s.Finished →
        k ∈ s.returned := by
  have horder : s.InOrder := hs ▸ (Scanning.inOrder_start env st).run es
  refine ⟨?_, horder.finished_iff, horder.returned_nodup, ?_, ?_⟩
  · rw [hs, (Scanning.inOrder_start env st).pages_length es, Scanning.start, length_nil,
      Nat.zero_add]
  · intro i page hpage k hk
    exact ((horder.exact i page hpage).mem k).mp hk
  · intro k hlive hdone
    have hshow := Scanning.pages_show hlive (Scanning.inOrder_start env st)
      (fun page hpage => absurd hpage not_mem_nil)
    rw [← hs] at hshow
    have hi : (shardIndex k).val < s.pages.length := by
      rw [horder.finished_iff.mp hdone]
      exact (shardIndex k).isLt
    have hpage := getElem?_eq_getElem hi
    refine mem_flatMap.mpr ⟨_, getElem_mem hi, ?_⟩
    exact ((horder.exact _ _ hpage).mem k).mpr ⟨hshow _ (getElem_mem hi), rfl⟩

theorem Scanning.Shows.call {k : Bytes} {s : Scanning F} (h : s.Shows k) :
    (s.step .call).Shows k := by
  unfold Scanning.step
  split_ifs with hdone
  · exact h
  · by_cases hcursor : s.cursor < shardCount
    · rw [Scanning.call_of_lt hcursor]
      exact h
    · rw [Scanning.call, Engine.scan, dif_neg hcursor]
      exact h

theorem Scanning.Shows.throughout_calls {k : Bytes} {s : Scanning F} (h : s.Shows k) (n : Nat) :
    Throughout Scanning.step (Scanning.Shows k) s (List.replicate n .call) := by
  induction n generalizing s with
  | zero => exact h
  | succ n ih => exact ⟨h, ih h.call⟩

def scannedStore : Store Score := Store.new.set (txt "k") (.string (txt "v"))

theorem full_scan_exact_calls :
    txt "k" ∈ ((List.replicate 16 ScanEvent.call).foldl Scanning.step
      (.start Env.still scannedStore)).returned := by
  have hset := (KeyOp.exec_live .zero (txt "k") (Store.new : Store Score)
    (.set (.string (txt "v")))).2
  have hshows : Scanning.Shows (txt "k") (.start Env.still scannedStore) := by
    refine (congrArg Option.isSome (congrFun hset (txt "k"))).trans ?_
    rw [Function.update_self]
    rfl
  obtain ⟨hlen, hdone, -, -, hall⟩ := full_scan_exact Env.still scannedStore
    (List.replicate 16 .call) _ rfl
  exact hall (txt "k") (hshows.throughout_calls 16) (hdone.mpr hlen)

end RocketMem
