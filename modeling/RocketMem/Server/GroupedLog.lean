import RocketMem.Server.Grouping

namespace RocketMem

open List Option TransactionGrouper

/-- A log as the grouper takes it, with who logged what: what has been released, and whose
transaction is held back. -/
structure Grouped where
  released : List (Nat × Frame)
  held : Option (Nat × List (Nat × Frame))

namespace Grouped

def feed (g : Grouped) (e : Nat × Frame) : Option Grouped :=
  match marker e.2, g.held with
  | some .multi, some _ => none
  | some .multi, none => some ⟨g.released, some (e.1, [])⟩
  | some .exec, some (_, held) => some ⟨g.released ++ held, none⟩
  | some .exec, none => none
  | none, some (i, held) => some ⟨g.released, some (i, held ++ [e])⟩
  | none, none => some ⟨g.released ++ [e], none⟩

def grouper (g : Grouped) : TransactionGrouper := ⟨g.held.map fun h => h.2.map Prod.snd⟩

theorem feed_grouper {g g' : Grouped} {e : Nat × Frame} (h : g.feed e = some g') :
    ∃ later, g.grouper.feed e.2 = .ok (later, g'.grouper) ∧
      g'.released.map Prod.snd = g.released.map Prod.snd ++ later := by
  unfold feed at h
  unfold TransactionGrouper.feed grouper
  split at h
  · cases h
  · next hm hheld =>
    cases h
    exact ⟨[], by simp [hm, hheld], by simp⟩
  · next held hm hheld =>
    cases h
    exact ⟨held.map Prod.snd, by simp [hm, hheld], by simp⟩
  · cases h
  · next i held hm hheld =>
    cases h
    exact ⟨[], by simp [hm, hheld], by simp⟩
  · next hm hheld =>
    cases h
    exact ⟨[e.2], by simp [hm, hheld], by simp⟩

theorem feed_conserves {g g' : Grouped} {e : Nat × Frame} (h : g.feed e = some g') :
    g'.released ++ (g'.held.map Prod.snd).getD [] =
      g.released ++ (g.held.map Prod.snd).getD [] ++ [e].filter fun e => (marker e.2).isNone := by
  unfold feed at h
  split at h
  · cases h
  · next hm hheld =>
    cases h
    simp [hm, hheld]
  · next held hm hheld =>
    cases h
    simp [hm, hheld]
  · cases h
  · next i held hm hheld =>
    cases h
    simp [hm, hheld]
  · next hm hheld =>
    cases h
    simp [hm, hheld]

end Grouped

section

variable {log : List (Nat × Frame)} {g : Grouped} {i : Nat} {f : Frame}

def grouped (log : List (Nat × Frame)) : Option Grouped := log.foldlM Grouped.feed ⟨[], none⟩

theorem grouped_append (xs ys : List (Nat × Frame)) :
    grouped (xs ++ ys) = (grouped xs).bind fun g => ys.foldlM Grouped.feed g :=
  foldlM_append

theorem grouped_concat (log : List (Nat × Frame)) (e : Nat × Frame) :
    grouped (log ++ [e]) = (grouped log).bind fun g => g.feed e := by
  rw [grouped_append]
  exact congrArg (Option.bind _) (funext fun g => by simp)

theorem grouped_take (h : (grouped log).isSome) (n : Nat) : (grouped (log.take n)).isSome := by
  rw [← List.take_append_drop n log, grouped_append] at h
  cases hg : grouped (log.take n) with
  | none => rw [hg] at h; cases h
  | some g => rfl

def openBatch (log : List (Nat × Frame)) : Option Nat :=
  (grouped log).bind fun g => g.held.map Prod.fst

theorem feedAll_of_grouped (h : grouped log = some g) :
    new.feedAll (log.map Prod.snd) = .ok (g.released.map Prod.snd, g.grouper) := by
  induction log using List.reverseRecOn generalizing g with
  | nil =>
    cases h
    rfl
  | append_singleton log e ih =>
    rw [grouped_concat] at h
    obtain ⟨g₀, hg₀, hfeed⟩ := bind_eq_some_iff.mp h
    obtain ⟨later, hlater, hreleased⟩ := Grouped.feed_grouper hfeed
    rw [map_append, hreleased]
    exact feedAll_append (ih hg₀)
      (feedAll_cons_iff.mpr ⟨_, _, [], hlater, rfl, (append_nil _).symm⟩)

theorem grouped_conserves (h : grouped log = some g) :
    g.released ++ (g.held.map Prod.snd).getD [] = log.filter fun e => (marker e.2).isNone := by
  induction log using List.reverseRecOn generalizing g with
  | nil =>
    cases h
    rfl
  | append_singleton log e ih =>
    rw [grouped_concat] at h
    obtain ⟨g₀, hg₀, hfeed⟩ := bind_eq_some_iff.mp h
    rw [Grouped.feed_conserves hfeed, ih hg₀, List.filter_append]

theorem held_opened {held : List (Nat × Frame)} (h : grouped log = some g)
    (hheld : g.held = some (i, held)) : ∃ e ∈ log, e.1 = i ∧ marker e.2 = some .multi := by
  induction log using List.reverseRecOn generalizing g held with
  | nil =>
    cases h
    cases hheld
  | append_singleton log e ih =>
    rw [grouped_concat] at h
    obtain ⟨g₀, hg₀, hfeed⟩ := bind_eq_some_iff.mp h
    unfold Grouped.feed at hfeed
    split at hfeed
    · cases hfeed
    · next hm _ =>
      cases hfeed
      cases hheld
      exact ⟨e, by simp, rfl, hm⟩
    · cases hfeed
      cases hheld
    · cases hfeed
    · next hold =>
      cases hfeed
      cases hheld
      obtain ⟨e', he', hrest⟩ := ih hg₀ hold
      exact ⟨e', by simp [he'], hrest⟩
    · cases hfeed
      cases hheld

theorem openBatch_command (h : (grouped log).isSome) (hf : marker f = none) :
    (grouped (log ++ [(i, f)])).isSome ∧ openBatch (log ++ [(i, f)]) = openBatch log := by
  obtain ⟨g, hg⟩ := isSome_iff_exists.mp h
  rw [openBatch, openBatch, grouped_concat, hg]
  cases hheld : g.held with
  | none => simp [Grouped.feed, hf, hheld]
  | some b => simp [Grouped.feed, hf, hheld]

theorem openBatch_multi (h : (grouped log).isSome) (hnone : openBatch log = none) :
    (grouped (log ++ [(i, markerFrame .multi)])).isSome ∧
      openBatch (log ++ [(i, markerFrame .multi)]) = some i := by
  obtain ⟨g, hg⟩ := isSome_iff_exists.mp h
  have hheld : g.held = none := by simpa [openBatch, hg] using hnone
  rw [openBatch, grouped_concat, hg]
  simp [Grouped.feed, marker_markerFrame, hheld]

theorem openBatch_exec {j : Nat} (h : (grouped log).isSome) (hsome : openBatch log = some j) :
    (grouped (log ++ [(i, markerFrame .exec)])).isSome ∧
      openBatch (log ++ [(i, markerFrame .exec)]) = none := by
  obtain ⟨g, hg⟩ := isSome_iff_exists.mp h
  have hheld : g.held.map Prod.fst = some j := by simpa [openBatch, hg] using hsome
  obtain ⟨b, hb, -⟩ := map_eq_some_iff.mp hheld
  rw [openBatch, grouped_concat, hg]
  simp [Grouped.feed, marker_markerFrame, hb]

theorem feedAll_of_closed (h : (grouped log).isSome) (hclosed : openBatch log = none) :
    new.feedAll (log.map Prod.snd) = .ok (commands (log.map Prod.snd), .new) := by
  obtain ⟨g, hg⟩ := isSome_iff_exists.mp h
  have hheld : g.held = none := by simpa [openBatch, hg] using hclosed
  have hgrouper : g.grouper = .new := by rw [Grouped.grouper, hheld]; rfl
  have hfeed := feedAll_of_grouped hg
  rw [hgrouper] at hfeed
  rwa [released_eq_commands hfeed rfl] at hfeed

end

variable {log : List (Nat × Frame)} {i : Nat}

def Contained (log : List (Nat × Frame)) : Prop :=
  ∀ n g j held, grouped (log.take n) = some g → g.held = some (j, held) → ∀ e ∈ held, e.1 = j

theorem Contained.concat {f : Frame} (h : Contained log)
    (hopen : openBatch log = none ∨ openBatch log = some i) : Contained (log ++ [(i, f)]) := by
  intro n g j held hg hheld
  rcases Nat.lt_or_ge log.length n with hn | hn
  · rw [take_of_length_le (by simpa using hn), grouped_concat] at hg
    obtain ⟨g₀, hg₀, hfeed⟩ := bind_eq_some_iff.mp hg
    have hbefore : ∀ j held, g₀.held = some (j, held) → ∀ e ∈ held, e.1 = j :=
      fun j held => h log.length g₀ j held (by rw [take_length, hg₀])
    unfold Grouped.feed at hfeed
    split at hfeed <;> cases hfeed <;> cases hheld
    · exact nofun
    · next held₀ _ hheld₀ =>
      intro e he
      rcases mem_append.mp he with he | he
      · exact hbefore j held₀ hheld₀ e he
      · -- the owner of the open transaction is whoever logs the command
        have hj : openBatch log = some j := by simp [openBatch, hg₀, hheld₀]
        rw [mem_singleton.mp he]
        rcases hopen with hnone | hsome
        · rw [hnone] at hj
          cases hj
        · exact some.inj (hsome.symm.trans hj)
  · rw [take_append_of_le_length hn] at hg
    exact h n g j held hg hheld

theorem Contained.released {n : Nat} {g : Grouped} (h : Contained log)
    (hg : grouped (log.take n) = some g)
    (hwrites : ∀ e ∈ log, e.1 = i → marker e.2 = none) (hlate : ∀ e ∈ log.drop n, e.1 ≠ i) :
    log.filter (fun e => e.1 = i) = g.released.filter fun e => e.1 = i := by
  have hdrop : (log.drop n).filter (fun e => e.1 = i) = [] :=
    filter_eq_nil_iff.mpr fun e he => by simpa using hlate e he
  have hheld : ((g.held.map Prod.snd).getD []).filter (fun e => e.1 = i) = [] := by
    refine filter_eq_nil_iff.mpr fun e he => ?_
    cases hsome : g.held with
    | none =>
      rw [hsome] at he
      cases he
    | some b =>
      obtain ⟨j, held⟩ := b
      rw [hsome] at he
      have hej : e.1 = j := h n g j held hg hsome e he
      obtain ⟨m, hm, hmj, hmulti⟩ := held_opened hg hsome
      intro hei
      have hmi : m.1 = i := hmj.trans (hej.symm.trans (of_decide_eq_true hei))
      rw [hwrites m (mem_of_mem_take hm) hmi] at hmulti
      cases hmulti
  calc log.filter (fun e => e.1 = i)
      = (log.take n).filter (fun e => e.1 = i) := by
        conv_lhs => rw [← List.take_append_drop n log, List.filter_append, hdrop, List.append_nil]
    _ = ((log.take n).filter fun e => (marker e.2).isNone).filter (fun e => e.1 = i) := by
        rw [List.filter_filter]
        refine List.filter_congr fun e he => ?_
        by_cases hei : e.1 = i
        · simp [hei, hwrites e (mem_of_mem_take he) hei]
        · simp [hei]
    _ = g.released.filter fun e => e.1 = i := by
        rw [← grouped_conserves hg, List.filter_append, hheld, List.append_nil]

end RocketMem
