import RocketMem.Engine.Commands.Ranges
import RocketMem.Server.WriteProof

namespace RocketMem

open ScoreIndexes

variable {F : Type} [F64 F]

def Store.Ranks (env : Env) (st : Store F) (key : Bytes) (z : ScoreIndexes F) : Prop :=
  (∃ s d, st.live env.clock key = some (.sortedSet s, d) ∧ s.indexes = z) ∨
    st.live env.clock key = none ∧ z.scores = ∅

structure ScoreIndexes.Lists {S : Type} [LinearOrder S] (z : ScoreIndexes S) (l : List Bytes) :
    Prop where
  mem : ∀ m, m ∈ l ↔ ∃ s, z.scores.lookup m = some s
  once : l.Nodup
  ascending : l.Pairwise fun a b =>
    ∃ s t, z.scores.lookup a = some s ∧ z.scores.lookup b = some t ∧ toLex (s, a) < toLex (t, b)

theorem ScoreIndexes.Agrees.lists {S : Type} [LinearOrder S] {z : ScoreIndexes S} (h : z.Agrees) :
    z.Lists z.membersAscending :=
  ⟨h.mem_membersAscending, h.membersAscending_nodup, h.membersAscending_sorted⟩

section

variable {R : Type} {env : Env} {st : Store F} {key : Bytes} {z : ScoreIndexes F}

theorem ScoreIndexes.Agrees.membersAscending_of_empty (h : z.Agrees) (hz : z.scores = ∅) :
    z.membersAscending = [] := by
  refine List.eq_nil_iff_forall_not_mem.mpr fun m hm => ?_
  obtain ⟨s, hs⟩ := (h.mem_membersAscending m).mp hm
  rw [hz, Finmap.lookup_empty] at hs
  cases hs

theorem findIdx?_eq_idxOf (l : List Bytes) (m : Bytes) :
    l.findIdx? (· = m) = if m ∈ l then some (l.idxOf m) else none := by
  rw [List.findIdx?_eq_guard_findIdx_lt, List.idxOf]
  have hmem : l.findIdx (· == m) < l.length ↔ m ∈ l := List.idxOf_lt_length_iff
  have hpred : (fun b : Bytes => decide (b = m)) = (· == m) :=
    funext fun b => (Bool.beq_eq_decide_eq b m).symm
  rw [hpred, Option.guard]
  simp only [decide_eq_true_eq, hmem]

theorem Store.Ranks.reply (h : st.Ranks env key z) (render : R → Frame) (absent : R)
    {f : SortedSet F → R} {g : ScoreIndexes F → R} (hf : ∀ s, f s = g s.indexes)
    (hempty : z.scores = ∅ → absent = g z) :
    (runEngine env (replyWith render <$> view key absent (Variant.sortedSet.read f)) st).1 =
      some (render (g z)) := by
  have hview := (runEngine_view env st key absent (Variant.sortedSet.read f)).1
  rw [runEngine] at hview ⊢
  rw [Program.run_map, hview]
  rcases h with ⟨s, d, hlive, rfl⟩ | ⟨hlive, hz⟩
  · rw [hlive, ← hf]
    rfl
  · rw [hlive, ← hempty hz]
    rfl

variable (h : st.Ranks env key z) (hz : z.Agrees)

include h hz

theorem Store.Ranks.zrange_all :
    (runEngine env (dispatch env (.command [txt "ZRANGE", key, txt "0", txt "-1"])) st).1 =
      some (bulksReply z.membersAscending) := by
  have hname : commandName (txt "ZRANGE") = some .zrange := by decide
  rw [dispatch_command hname]
  refine h.reply bulksReply [] (fun s => ?_) fun hnone => (hz.membersAscending_of_empty hnone).symm
  have hlen : s.len = s.membersAscending.length := s.length_membersAscending.symm
  rw [hlen]
  exact slice_all _

theorem Store.Ranks.zrank (m : Bytes) :
    (runEngine env (dispatch env (.command [txt "ZRANK", key, m])) st).1 =
      some (if m ∈ z.membersAscending then countReply (z.membersAscending.idxOf m) else .null) := by
  have hname : commandName (txt "ZRANK") = some .zrank := by decide
  rw [dispatch_command hname]
  have hreply := h.reply (fun r => r.elim .null countReply) none
    (f := fun s => s.membersAscending.findIdx? (· = m))
    (g := fun z => z.membersAscending.findIdx? (· = m)) (fun _ => rfl) fun hnone => by
      rw [hz.membersAscending_of_empty hnone, List.findIdx?_nil]
  refine hreply.trans ?_
  rw [findIdx?_eq_idxOf]
  split_ifs <;> rfl

theorem Store.Ranks.zcard :
    (runEngine env (dispatch env (.command [txt "ZCARD", key])) st).1 =
      some (countReply z.membersAscending.length) := by
  have hname : commandName (txt "ZCARD") = some .zcard := by decide
  rw [dispatch_command hname, hz.length_membersAscending]
  refine h.reply countReply 0 (fun _ => rfl) fun hnone => ?_
  rw [len, hnone, Finmap.keys_empty, Finset.card_empty]

end

/-- After any insertions and removals the two indexes hold the same pairs, and the commands that
list, rank and count a set so made answer from the one list of its members in ascending order. -/
theorem sorted_sets_indexed (F : Type) [F64 F] :
    (∀ (S : Type) [LinearOrder S] (calls : List (ScoreCall S)) (s : S) (m : Bytes),
      toLex (s, m) ∈ (ScoreIndexes.new.run calls).byScore ↔
        (ScoreIndexes.new.run calls).scores.lookup m = some s) ∧
    ∀ (env : Env) (st : Store F) (key : Bytes) (calls : List (ScoreCall F)),
      st.Ranks env key (ScoreIndexes.new.run calls) →
        ∃ members, (ScoreIndexes.new.run calls).Lists members ∧
          (runEngine env (dispatch env (.command [txt "ZRANGE", key, txt "0", txt "-1"])) st).1 =
            some (.array (members.map .bulk)) ∧
          (∀ m, (runEngine env (dispatch env (.command [txt "ZRANK", key, m])) st).1 =
            some (if m ∈ members then .integer (members.idxOf m) else .null)) ∧
          (runEngine env (dispatch env (.command [txt "ZCARD", key])) st).1 =
            some (.integer members.length) := by
  constructor
  · intro S _ calls
    exact agrees_new.run calls
  · intro env st key calls h
    have hagrees := (agrees_new (S := F)).run calls
    exact ⟨_, hagrees.lists, h.zrange_all hagrees, h.zrank hagrees, h.zcard hagrees⟩

def rankingCalls : List (ScoreCall Score) :=
  [.insert (txt "b") (F64.ofNat 1), .insert (txt "a") (F64.ofNat 2),
    .insert (txt "b") (F64.ofNat 3), .insert (txt "c") (F64.ofNat 1), .remove (txt "c")]

def rankingStore : Store Score :=
  Store.new.set (txt "z") (.sortedSet ⟨_, _, agrees_new.run rankingCalls⟩)

theorem rankingStore_ranks : rankingStore.Ranks Env.still (txt "z") (new.run rankingCalls) := by
  have hset := (KeyOp.exec_live .zero (txt "z") (Store.new : Store Score)
    (.set (.sortedSet ⟨_, _, agrees_new.run rankingCalls⟩))).2
  exact .inl ⟨_, _, (congrFun hset (txt "z")).trans (Function.update_self _ _ _), rfl⟩

theorem sorted_sets_indexed_rescored :
    ∃ members, (ScoreIndexes.new.run rankingCalls).Lists members ∧
      (runEngine Env.still (dispatch Env.still
        (.command [txt "ZCARD", txt "z"])) rankingStore).1 = some (.integer members.length) := by
  obtain ⟨members, hlists, -, -, hcard⟩ := (sorted_sets_indexed Score).2 _ _ _ _ rankingStore_ranks
  exact ⟨members, hlists, hcard⟩

end RocketMem
