import RocketMem.Server.LoggingProof

namespace RocketMem

inductive Marker where
  | multi
  | exec
  deriving DecidableEq, Repr

/-- A transaction marker has no arguments. -/
def marker : Frame → Option Marker
  | .array [.bulk name] =>
    match upperName name with
    | some name =>
      if name = txt "MULTI" then some .multi else if name = txt "EXEC" then some .exec else none
    | none => none
  | _ => none

def markerFrame : Marker → Frame
  | .multi => .array [.bulk (txt "MULTI")]
  | .exec => .array [.bulk (txt "EXEC")]

structure TransactionGrouper where
  buffer : Option (List Frame)

namespace TransactionGrouper

def new : TransactionGrouper := ⟨none⟩

def isMidTransaction (g : TransactionGrouper) : Bool := g.buffer.isSome

/-- `feed`: what may be applied now. A transaction is held until its `EXEC`. -/
def feed (g : TransactionGrouper) (frame : Frame) :
    Except Bytes (List Frame × TransactionGrouper) :=
  match marker frame, g.buffer with
  | some .multi, some _ => .error (txt "MULTI seen while already buffering a transaction")
  | some .multi, none => .ok ([], ⟨some []⟩)
  | some .exec, some buffer => .ok (buffer, ⟨none⟩)
  | some .exec, none => .error (txt "EXEC seen with no matching MULTI")
  | none, some buffer => .ok ([], ⟨some (buffer ++ [frame])⟩)
  | none, none => .ok ([frame], ⟨none⟩)

/-- What comes of frames one after the other, with what each of them releases. -/
def feedEach : TransactionGrouper → List Frame →
    Except Bytes (List (List Frame) × TransactionGrouper)
  | g, [] => .ok ([], g)
  | g, frame :: frames =>
    (g.feed frame).bind fun r => (feedEach r.2 frames).map fun later => (r.1 :: later.1, later.2)

def feedAll (g : TransactionGrouper) (frames : List Frame) :
    Except Bytes (List Frame × TransactionGrouper) :=
  (g.feedEach frames).map fun r => (r.1.flatten, r.2)

end TransactionGrouper

def commands (frames : List Frame) : List Frame := frames.filter fun f => (marker f).isNone

@[simp] theorem commands_nil : commands [] = [] := rfl

theorem commands_append (xs ys : List Frame) : commands (xs ++ ys) = commands xs ++ commands ys :=
  List.filter_append xs ys

theorem commands_of_none {frame : Frame} (h : marker frame = none) : commands [frame] = [frame] := by
  simp [commands, h]

theorem commands_of_some {frame : Frame} {mk : Marker} (h : marker frame = some mk) :
    commands [frame] = [] := by
  simp [commands, h]

theorem marker_markerFrame (mk : Marker) : marker (markerFrame mk) = some mk := by
  cases mk <;> decide

theorem marker_of_isWrite {frame : Frame} (h : (extractWriteCommandName frame).isSome) :
    marker frame = none := by
  have hmulti : CommandName.ofText (txt "MULTI") = some .multi := by decide
  have hexec : CommandName.ofText (txt "EXEC") = some .exec := by decide
  unfold marker
  split
  · next name =>
    split
    · next upper hupper =>
      have hname : commandName name = CommandName.ofText upper := by
        rw [commandName, hupper, Option.bind_some]
      simp only [extractWriteCommandName, hname] at h
      split
      · next heq =>
        rw [heq, hmulti] at h
        exact absurd h (by decide)
      · split
        · next heq =>
          rw [heq, hexec] at h
          exact absurd h (by decide)
        · rfl
    · rfl
  · rfl

theorem commands_of_isWrite {frames : List Frame}
    (h : ∀ f ∈ frames, (extractWriteCommandName f).isSome) : commands frames = frames := by
  refine List.filter_eq_self.mpr fun f hf => ?_
  rw [marker_of_isWrite (h f hf)]
  rfl

namespace TransactionGrouper

variable {g g' g'' : TransactionGrouper} {frame : Frame} {xs ys now : List Frame}

theorem feedEach_cons_iff {released : List (List Frame)} :
    g.feedEach (frame :: xs) = .ok (released, g'') ↔ ∃ now g' later, g.feed frame = .ok (now, g') ∧
      g'.feedEach xs = .ok (later, g'') ∧ released = now :: later := by
  rw [feedEach]
  cases hframe : g.feed frame with
  | error e => exact ⟨nofun, nofun⟩
  | ok r =>
    obtain ⟨now, g'⟩ := r
    cases hxs : g'.feedEach xs with
    | error e => simp [Except.bind, Except.map, hxs]
    | ok s => simp [Except.bind, Except.map, hxs, Prod.ext_iff, eq_comm, and_comm]

theorem feedEach_append {released later : List (List Frame)}
    (hxs : g.feedEach xs = .ok (released, g')) (hys : g'.feedEach ys = .ok (later, g'')) :
    g.feedEach (xs ++ ys) = .ok (released ++ later, g'') := by
  induction xs generalizing g released with
  | nil =>
    cases hxs
    exact hys
  | cons frame xs ih =>
    obtain ⟨now, g₁, rest, hframe, hrest, rfl⟩ := feedEach_cons_iff.mp hxs
    exact feedEach_cons_iff.mpr ⟨now, g₁, _, hframe, ih hrest, rfl⟩

theorem feedAll_iff {released : List Frame} :
    g.feedAll xs = .ok (released, g') ↔
      ∃ each, g.feedEach xs = .ok (each, g') ∧ released = each.flatten := by
  rw [feedAll]
  cases g.feedEach xs with
  | error e => exact ⟨nofun, nofun⟩
  | ok r =>
    obtain ⟨each, g₁⟩ := r
    simp [Except.map, eq_comm, and_comm]

theorem feedAll_cons_iff {released : List Frame} :
    g.feedAll (frame :: xs) = .ok (released, g'') ↔ ∃ now g' later, g.feed frame = .ok (now, g') ∧
      g'.feedAll xs = .ok (later, g'') ∧ released = now ++ later := by
  constructor
  · intro h
    obtain ⟨each, heach, rfl⟩ := feedAll_iff.mp h
    obtain ⟨now, g', later, hframe, hxs, rfl⟩ := feedEach_cons_iff.mp heach
    exact ⟨now, g', later.flatten, hframe, feedAll_iff.mpr ⟨later, hxs, rfl⟩, rfl⟩
  · rintro ⟨now, g', later, hframe, hxs, rfl⟩
    obtain ⟨each, heach, rfl⟩ := feedAll_iff.mp hxs
    exact feedAll_iff.mpr ⟨_, feedEach_cons_iff.mpr ⟨now, g', each, hframe, heach, rfl⟩, rfl⟩

theorem feedAll_append {released later : List Frame} (hxs : g.feedAll xs = .ok (released, g'))
    (hys : g'.feedAll ys = .ok (later, g'')) :
    g.feedAll (xs ++ ys) = .ok (released ++ later, g'') := by
  obtain ⟨each, heach, rfl⟩ := feedAll_iff.mp hxs
  obtain ⟨rest, hrest, rfl⟩ := feedAll_iff.mp hys
  exact feedAll_iff.mpr ⟨_, feedEach_append heach hrest, List.flatten_append.symm⟩

theorem feed_conserves (h : g.feed frame = .ok (now, g')) :
    g.buffer.getD [] ++ commands [frame] = now ++ g'.buffer.getD [] := by
  unfold feed at h
  split at h <;> cases h
  · next hm hb => simp [commands_of_some hm, hb]
  · next hm hb => simp [commands_of_some hm, hb]
  · next hm hb => simp [commands_of_none hm, hb]
  · next hm hb => simp [commands_of_none hm, hb]

theorem feedAll_conserves {released : List Frame} (h : g.feedAll xs = .ok (released, g')) :
    g.buffer.getD [] ++ commands xs = released ++ g'.buffer.getD [] := by
  induction xs generalizing g released with
  | nil =>
    cases h
    simp
  | cons frame xs ih =>
    obtain ⟨now, g₁, later, hfeed, hrest, rfl⟩ := feedAll_cons_iff.mp h
    rw [← List.singleton_append, commands_append, ← List.append_assoc, feed_conserves hfeed,
      List.append_assoc, ih hrest, List.append_assoc]

theorem released_eq_commands {frames released : List Frame} {g : TransactionGrouper}
    (h : new.feedAll frames = .ok (released, g)) (hg : g.isMidTransaction = false) :
    released = commands frames := by
  have hconserves := feedAll_conserves h
  rw [isMidTransaction, Option.isSome_eq_false_iff, Option.isNone_iff_eq_none] at hg
  simpa [new, hg] using hconserves.symm

end TransactionGrouper

end RocketMem
