import RocketMem.Framework.Transition
import RocketMem.Protocol.Stream
import RocketMem.Server.Dispatch

namespace RocketMem

def isPsyncCommand : Frame → Bool
  | .array (.bulk name :: _) => asciiUpper name = txt "PSYNC"
  | _ => false

/-- `blocking_timeout`: the last argument of a command that may block. -/
def blockingTimeout (F : Type) [F64 F] : Frame → Option (Except Frame F)
  | .array (.bulk name :: args) =>
    if asciiUpper name ∈ ["BLPOP", "BRPOP", "BLMOVE", "BRPOPLPUSH"].map txt then
      match args.getLast? with
      | some (.bulk raw) => some (parseTimeoutSecs F raw)
      | _ => none
    else none
  | _ => none

/-- Whether the deadline of a blocking command lies beyond what an `Instant` can hold, which makes
`Duration::from_secs_f64` or the addition panic. A float of that size is a whole number. -/
def deadlineOverflows {F : Type} [F64 F] (mono : Nat) (secs : F) : Bool :=
  match F64.integral secs with
  | some n => decide (i64Max < (mono / 1000 : Nat) + n)
  | none => false

def Frame.isNull : Frame → Bool
  | .null => true
  | _ => false

/-- Where `handle_connection` stands: it is about to take the next frame, to make an attempt at a
blocking command or to sleep until the next one, it has answered, or it is gone. -/
inductive Phase where
  | next
  | attempting (frame : Frame) (timed : Bool)
  | asleep (frame : Frame) (timed : Bool)
  | answered
  | closed

/-- A RESP connection: what its client has still to send, what has been received and not been
decoded, and the frame that was pulled ahead. `handled` are the frames that have been answered, with
the answers, of which the first `flushed` have left. -/
structure Connection where
  phase : Phase
  unsent : Bytes
  buffer : Bytes
  pending : Option Frame
  handled : List (Frame × Frame)
  flushed : Nat

/-- What can happen next. `reply` is what `dispatch_and_log` returns, unless it panics, `mono` the
clock when a deadline is set, and `late` whether it has passed. -/
inductive ConnectionEvent where
  | arrive (n : Nat)
  | push
  | turn (reply : Option Frame) (mono : Nat)
  | attempt (reply : Option Frame) (late : Bool)
  | wake
  | stash
  | peek

namespace Connection

def start (sent : Bytes) : Connection := ⟨.next, sent, [], none, [], 0⟩

def answer (c : Connection) (frame reply : Frame) : Connection :=
  { c with phase := .answered, handled := c.handled ++ [(frame, reply)] }

def close (c : Connection) : Connection := { c with phase := .closed }

def flush (c : Connection) : Connection := { c with flushed := c.handled.length }

def handle (F : Type) [F64 F] (c : Connection) (frame : Frame) (reply : Option Frame)
    (mono : Nat) : Connection :=
  if isPsyncCommand frame then
    -- refused, or the connection is handed over to `serve_replica`
    match reply with
    | some r => { (c.answer frame r).flush with phase := .next }
    | none => c.close
  else match blockingTimeout F frame with
    | some (.ok secs) =>
      if F64.ofNat 0 < secs ∧ deadlineOverflows mono secs = true then c.close
      else { c with phase := .attempting frame (decide (F64.ofNat 0 < secs)) }
    | some (.error e) => c.answer frame e
    | none =>
      match reply with
      | some r => c.answer frame r
      | none => c.close

def pull (c : Connection) : Option (Frame × Connection) :=
  match c.pending with
  | some frame => some (frame, { c with pending := none })
  | none =>
    match decode c.buffer with
    | .ok frame n => some (frame, { c with buffer := c.buffer.drop n })
    | _ => none

/-- Poll the decoder once: the frame goes into the slot, whatever is there. -/
def park (c : Connection) (waiting : Connection) : Connection :=
  match decode c.buffer with
  | .ok frame n => { c with buffer := c.buffer.drop n, pending := some frame }
  | .incomplete => waiting
  | .invalid _ | .panic => c.close

/-- `handle_connection`, one turn or wait of its loop at a time. -/
def step (F : Type) [F64 F] (c : Connection) : ConnectionEvent → Connection
  | .arrive n => { c with buffer := c.buffer ++ c.unsent.take n, unsent := c.unsent.drop n }
  | .push =>
    match c.phase, c.pending with
    | .next, none => c.flush
    | _, _ => c
  | .turn reply mono =>
    match c.phase with
    | .next =>
      match c.pull with
      | some (frame, c) => c.handle F frame reply mono
      | none =>
        match decode c.buffer with
        | .invalid _ | .panic => c.close
        | _ => c
    | _ => c
  | .attempt reply late =>
    match c.phase with
    | .attempting frame timed =>
      match reply with
      | none => c.close
      | some r =>
        if !r.isNull then c.answer frame r
        else if timed && late then c.answer frame .null
        else { c with phase := .asleep frame timed }
    | _ => c
  | .wake =>
    match c.phase with
    | .asleep frame timed => { c with phase := .attempting frame timed }
    | _ => c
  | .stash =>
    match c.phase, c.pending with
    | .asleep frame timed, none =>
      let woken := { c with phase := .attempting frame timed }
      woken.park c
    | _, _ => c
  | .peek =>
    match c.phase with
    | .answered =>
      let next := { c with phase := .next }
      next.park next.flush
    | _ => c

def current (c : Connection) : List Frame :=
  match c.phase with
  | .attempting frame _ | .asleep frame _ => [frame]
  | _ => []

def AwaitsClient (c : Connection) : Prop :=
  c.phase = .next ∧ c.pending = none ∧ decode c.buffer = .incomplete

def Undisturbed (F : Type) [F64 F] (c : Connection) : ConnectionEvent → Prop
  | .turn reply mono =>
    reply.isSome ∧ ∀ frame c', c.pull = some (frame, c') → ∀ secs : F,
      blockingTimeout F frame = some (.ok secs) → deadlineOverflows mono secs = false
  | .attempt reply _ => reply.isSome
  | .peek => c.pending = none ∨ decode c.buffer = .incomplete
  | _ => True

/-- No frame is waiting in the slot when the next one is put there. -/
def SlotFree (c : Connection) : Prop :=
  c.phase = .next ∨ c.pending = none ∨ decode c.buffer = .incomplete

end Connection

section

variable {F : Type} [F64 F] {sent : Bytes} {frames : List Frame} {c : Connection}

structure Connection.Lined (frames : List Frame) (c : Connection) : Prop where
  alive : c.phase ≠ .closed
  size : (c.buffer ++ c.unsent).length < 2 ^ 63
  order : ∃ rest, DecodesAs (c.buffer ++ c.unsent) rest ∧
    c.handled.map Prod.fst ++ c.current ++ c.pending.toList ++ rest = frames

structure Connection.InOrder (frames : List Frame) (c : Connection) : Prop extends
    c.Lined frames where
  flushed : c.phase = .next → c.pending = none → c.flushed = c.handled.length

namespace Connection

variable {reply : Option Frame}

theorem InOrder.start (h : DecodesAs sent frames) (hsize : sent.length < 2 ^ 63) :
    (start sent).InOrder frames :=
  ⟨⟨nofun, hsize, frames, h, rfl⟩, fun _ _ => rfl⟩

theorem InOrder.arrive (h : c.InOrder frames) (n : Nat) :
    (c.step F (.arrive n)).InOrder frames := by
  have hbytes : c.buffer ++ c.unsent.take n ++ c.unsent.drop n = c.buffer ++ c.unsent := by
    rw [List.append_assoc, List.take_append_drop]
  refine ⟨⟨h.alive, ?_, ?_⟩, h.flushed⟩
  · change (c.buffer ++ c.unsent.take n ++ c.unsent.drop n).length < 2 ^ 63
    rw [hbytes]
    exact h.size
  · obtain ⟨rest, hreads, horder⟩ := h.order
    refine ⟨rest, ?_, horder⟩
    change DecodesAs (c.buffer ++ c.unsent.take n ++ c.unsent.drop n) rest
    rw [hbytes]
    exact hreads

theorem Lined.decodes (h : c.Lined frames) :
    decode c.buffer = .incomplete ∨ ∃ frame n, decode c.buffer = .ok frame n := by
  obtain ⟨rest, hreads, -⟩ := h.order
  rcases hreads.arrived h.size with hwait | ⟨g, n, -, -, hdecode, -⟩
  · exact .inl hwait
  · exact .inr ⟨g, n, hdecode⟩

theorem size_drop (h : (c.buffer ++ c.unsent).length < 2 ^ 63) (n : Nat) :
    (c.buffer.drop n ++ c.unsent).length < 2 ^ 63 := by
  simp only [List.length_append, List.length_drop] at h ⊢
  omega

theorem Lined.pull (h : c.Lined frames) (hphase : c.phase = .next) {frame : Frame}
    {c' : Connection} (hpull : c.pull = some (frame, c')) :
    c'.pending = none ∧ (c'.buffer ++ c'.unsent).length < 2 ^ 63 ∧
      ∃ rest, DecodesAs (c'.buffer ++ c'.unsent) rest ∧
        c'.handled.map Prod.fst ++ frame :: rest = frames := by
  obtain ⟨rest, hreads, horder⟩ := h.order
  have hcurrent : c.current = [] := by
    unfold current
    rw [hphase]
  rw [hcurrent, List.append_nil] at horder
  unfold Connection.pull at hpull
  cases hpending : c.pending with
  | some g =>
    rw [hpending] at hpull horder
    cases hpull
    exact ⟨rfl, h.size, rest, hreads, by simpa using horder⟩
  | none =>
    rw [hpending] at hpull horder
    dsimp only at hpull
    rcases hreads.arrived h.size with hwait | ⟨g, n, rest', rfl, hdecode, hrest⟩
    · rw [hwait] at hpull
      cases hpull
    · rw [hdecode] at hpull
      cases hpull
      exact ⟨rfl, size_drop h.size n, rest', hrest, by simpa using horder⟩

theorem handle_inOrder {frame : Frame} {rest : List Frame} (hpending : c.pending = none)
    (hsize : (c.buffer ++ c.unsent).length < 2 ^ 63) (hreads : DecodesAs (c.buffer ++ c.unsent) rest)
    (horder : c.handled.map Prod.fst ++ frame :: rest = frames)
    (hpsync : isPsyncCommand frame = false) (hreply : reply.isSome)
    {mono : Nat} (hfits : ∀ secs : F, blockingTimeout F frame = some (.ok secs) →
      deadlineOverflows mono secs = false) :
    (c.handle F frame reply mono).InOrder frames := by
  have hanswer (r : Frame) : (c.answer frame r).InOrder frames := by
    refine ⟨⟨nofun, hsize, rest, hreads, ?_⟩, nofun⟩
    simpa [answer, current, hpending] using horder
  obtain ⟨r, rfl⟩ := Option.isSome_iff_exists.mp hreply
  unfold Connection.handle
  rw [hpsync]
  simp only [Bool.false_eq_true, if_false]
  split
  · next secs hsecs =>
    rw [if_neg (by simp [hfits secs hsecs])]
    refine ⟨⟨nofun, hsize, rest, hreads, ?_⟩, nofun⟩
    simpa [current, hpending] using horder
  · exact hanswer _
  · exact hanswer _

theorem Lined.park {waiting : Connection} (h : c.Lined frames)
    (hslot : c.pending = none ∨ decode c.buffer = .incomplete)
    (hwaiting : waiting.InOrder frames) : (c.park waiting).InOrder frames := by
  obtain ⟨rest, hreads, horder⟩ := h.order
  unfold Connection.park
  rcases hreads.arrived h.size with hwait | ⟨g, n, rest', rfl, hdecode, hrest⟩
  · rw [hwait]
    exact hwaiting
  · have hpending : c.pending = none := by
      refine hslot.resolve_right fun hwait => ?_
      rw [hwait] at hdecode
      cases hdecode
    rw [hdecode]
    refine ⟨⟨h.alive, size_drop h.size n, rest', hrest, ?_⟩, nofun⟩
    rw [hpending] at horder
    simpa [current] using horder

theorem Lined.phase (h : c.Lined frames) {p : Phase} (hp : p ≠ .closed)
    (hcurrent : { c with phase := p }.current = c.current) :
    { c with phase := p }.Lined frames := by
  refine ⟨hp, h.size, ?_⟩
  rw [hcurrent]
  exact h.order

theorem InOrder.attempt (h : c.InOrder frames) (hreply : reply.isSome)
    (late : Bool) : (c.step F (.attempt reply late)).InOrder frames := by
  obtain ⟨r, rfl⟩ := Option.isSome_iff_exists.mp hreply
  unfold step
  dsimp only
  split
  · next frame timed hphase =>
    have hcurrent : c.current = [frame] := by
      unfold current
      rw [hphase]
    have hanswer (r : Frame) : (c.answer frame r).InOrder frames := by
      obtain ⟨rest, hreads, horder⟩ := h.order
      refine ⟨⟨nofun, h.size, rest, hreads, ?_⟩, nofun⟩
      rw [hcurrent] at horder
      simpa [answer, current] using horder
    split_ifs
    · exact hanswer r
    · exact hanswer .null
    · exact ⟨h.toLined.phase nofun hcurrent.symm, nofun⟩
  · exact h

theorem InOrder.wake (h : c.InOrder frames) : (c.step F .wake).InOrder frames := by
  unfold step
  dsimp only
  split
  · next frame timed hphase =>
    have hcurrent : c.current = [frame] := by
      unfold current
      rw [hphase]
    exact ⟨h.toLined.phase nofun hcurrent.symm, nofun⟩
  · exact h

theorem InOrder.stash (h : c.InOrder frames) : (c.step F .stash).InOrder frames := by
  unfold step
  dsimp only
  split
  · next frame timed hphase hpending =>
    have hcurrent : c.current = [frame] := by
      unfold current
      rw [hphase]
    exact Lined.park (h.toLined.phase nofun hcurrent.symm) (.inl hpending) h
  · exact h

theorem InOrder.peek (h : c.InOrder frames)
    (hslot : c.pending = none ∨ decode c.buffer = .incomplete) :
    (c.step F .peek).InOrder frames := by
  unfold step
  dsimp only
  split
  · next hphase =>
    have hcurrent : c.current = [] := by
      unfold current
      rw [hphase]
    have hnext : { c with phase := .next }.Lined frames := h.toLined.phase nofun hcurrent.symm
    refine hnext.park hslot ⟨⟨hnext.alive, hnext.size, hnext.order⟩, fun _ _ => rfl⟩
  · exact h

theorem InOrder.turn (h : c.InOrder frames) (hpsync : ∀ f ∈ frames, isPsyncCommand f = false)
    {mono : Nat} (hcalm : c.Undisturbed F (.turn reply mono)) :
    (c.step F (.turn reply mono)).InOrder frames := by
  unfold step
  dsimp only
  split
  · next hphase =>
    split
    · next frame c' hpull =>
      obtain ⟨hpending, hsize, rest, hreads, horder⟩ := h.pull hphase hpull
      have hmem : frame ∈ frames := by
        rw [← horder]
        simp
      exact handle_inOrder hpending hsize hreads horder (hpsync frame hmem) hcalm.1
        (hcalm.2 frame c' hpull)
    · rcases h.decodes with hwait | ⟨frame, n, hdecode⟩
      · rw [hwait]
        exact h
      · rw [hdecode]
        exact h
  · exact h

theorem InOrder.push (h : c.InOrder frames) : (c.step F .push).InOrder frames := by
  unfold step
  dsimp only
  split
  · exact ⟨⟨h.alive, h.size, h.order⟩, fun _ _ => rfl⟩
  · exact h

theorem InOrder.step (h : c.InOrder frames) (hpsync : ∀ f ∈ frames, isPsyncCommand f = false)
    {e : ConnectionEvent} (hcalm : c.Undisturbed F e) : (c.step F e).InOrder frames := by
  cases e with
  | arrive n => exact h.arrive n
  | push => exact h.push
  | turn reply mono => exact h.turn hpsync hcalm
  | attempt reply late => exact h.attempt hcalm late
  | wake => exact h.wake
  | stash => exact h.stash
  | peek => exact h.peek hcalm

/-- What is left to do: frames to answer, and for each a few moves. -/
def work (frames : List Frame) (c : Connection) : Nat :=
  4 * (frames.length - c.handled.length) +
    match c.phase with
    | .closed => 0
    | .attempting _ _ => 1
    | .asleep _ _ => 2
    | .next => 3
    | .answered => 4

theorem Lined.length_le (h : c.Lined frames) : c.handled.length ≤ frames.length := by
  obtain ⟨rest, -, horder⟩ := h.order
  rw [← horder]
  simp only [List.length_append, List.length_map]
  omega

theorem pull_same {frame : Frame} {c' : Connection} (h : c.pull = some (frame, c')) :
    c'.handled = c.handled ∧ c'.unsent = c.unsent := by
  unfold Connection.pull at h
  split at h
  · cases h
    exact ⟨rfl, rfl⟩
  · split at h
    · cases h
      exact ⟨rfl, rfl⟩
    · cases h

theorem Lined.awaits (h : c.Lined frames) (hphase : c.phase = .next) (hpull : c.pull = none) :
    c.AwaitsClient := by
  unfold Connection.pull at hpull
  split at hpull
  · cases hpull
  · next hpending =>
    refine ⟨hphase, hpending, h.decodes.resolve_right fun ⟨frame, n, hdecode⟩ => ?_⟩
    rw [hdecode] at hpull
    cases hpull

theorem handle_works {c' : Connection} {frame r : Frame} {mono : Nat}
    (hpsync : isPsyncCommand frame = false) (hfits : ∀ secs : F,
      blockingTimeout F frame = some (.ok secs) → deadlineOverflows mono secs = false)
    (hc' : c' = c.handle F frame (some r) mono) :
    c'.pending = c.pending ∧ c'.unsent = c.unsent ∧
      (c'.phase = .answered ∧ c'.handled.length = c.handled.length + 1 ∨
        (∃ timed, c'.phase = .attempting frame timed) ∧ c'.handled = c.handled) := by
  unfold Connection.handle at hc'
  rw [hpsync] at hc'
  simp only [Bool.false_eq_true, if_false] at hc'
  split at hc'
  · next secs hsecs =>
    rw [if_neg (by simp [hfits secs hsecs])] at hc'
    exact hc' ▸ ⟨rfl, rfl, .inr ⟨⟨_, rfl⟩, rfl⟩⟩
  · exact hc' ▸ ⟨rfl, rfl, .inl ⟨rfl, by simp [answer]⟩⟩
  · exact hc' ▸ ⟨rfl, rfl, .inl ⟨rfl, by simp [answer]⟩⟩

section

variable (h : c.InOrder frames) (hpsync : ∀ f ∈ frames, isPsyncCommand f = false) {mono : Nat}
  (hfits : ∀ f ∈ frames, ∀ secs : F, blockingTimeout F f = some (.ok secs) →
    deadlineOverflows mono secs = false)

include h hpsync hfits

theorem InOrder.advance (hslot : c.SlotFree) (hbusy : ¬ c.AwaitsClient) :
    ∃ e, c.Undisturbed F e ∧ (c.step F e).SlotFree ∧
      (c.step F e).work frames < c.work frames ∧ (c.step F e).unsent = c.unsent := by
  suffices hnext : ∃ e, c.Undisturbed F e ∧ (c.step F e).SlotFree ∧
      ((c.step F e).handled.length ≤ frames.length →
        (c.step F e).work frames < c.work frames) ∧ (c.step F e).unsent = c.unsent by
    obtain ⟨e, hcalm, hslot, hless, hunsent⟩ := hnext
    exact ⟨e, hcalm, hslot, hless (h.step hpsync hcalm).length_le, hunsent⟩
  cases hphase : c.phase with
  | closed => exact absurd hphase h.alive
  | next =>
    cases hpull : c.pull with
    | none => exact absurd (h.awaits hphase hpull) hbusy
    | some r =>
      obtain ⟨frame, c'⟩ := r
      obtain ⟨hpending, -, rest, -, horder⟩ := h.pull hphase hpull
      obtain ⟨hhandled, hunsent⟩ := pull_same hpull
      have hmem : frame ∈ frames := by
        rw [← horder]
        simp
      have hstep : c.step F (.turn (some .null) mono) = c'.handle F frame (some .null) mono := by
        simp only [Connection.step, hphase, hpull]
      obtain ⟨hpending', hunsent', hrest⟩ := handle_works (hpsync frame hmem) (hfits frame hmem) hstep
      refine ⟨.turn (some .null) mono, ⟨rfl, ?_⟩, .inr (.inl (hpending'.trans hpending)), ?_,
        hunsent'.trans hunsent⟩
      · intro g c'' hg
        cases hpull.symm.trans hg
        exact hfits frame hmem
      · intro hle
        rcases hrest with ⟨hdone, hlen⟩ | ⟨⟨timed, hdone⟩, hlen⟩
        · simp only [work, hphase, hdone, hlen, hhandled] at hle ⊢
          omega
        · simp only [work, hphase, hdone, hlen, hhandled]
          omega
  | attempting frame timed =>
    refine ⟨.attempt (some okReply) false, rfl, ?_, fun hle => ?_, ?_⟩
    all_goals simp only [Connection.step, hphase, Frame.isNull, okReply, Bool.not_false, if_true]
    · exact .inr (hslot.resolve_left (by rw [hphase]; nofun))
    · simp only [Connection.step, hphase, Frame.isNull, okReply, Bool.not_false, if_true, work,
        answer, List.length_append, List.length_singleton] at hle ⊢
      omega
    · rfl
  | asleep frame timed =>
    refine ⟨.wake, trivial, ?_, fun _ => ?_, ?_⟩
    all_goals simp only [Connection.step, hphase]
    · exact .inr (hslot.resolve_left (by rw [hphase]; nofun))
    · simp only [work, hphase]
      omega
  | answered =>
    have hfree := hslot.resolve_left (by rw [hphase]; nofun)
    refine ⟨.peek, hfree, ?_⟩
    simp only [Connection.step, hphase, Connection.park]
    rcases h.decodes with hwait | ⟨frame, n, hdecode⟩
    · simp only [hwait]
      refine ⟨.inl rfl, fun _ => ?_, rfl⟩
      simp only [work, flush, hphase]
      omega
    · simp only [hdecode]
      refine ⟨.inl rfl, fun _ => ?_, trivial⟩
      simp only [work, hphase]
      omega

theorem InOrder.catches_up (hslot : c.SlotFree) :
    ∃ c', RunsTo (Connection.step F) (Connection.Undisturbed F) c c' ∧ c'.AwaitsClient ∧
      c'.InOrder frames ∧ c'.unsent = c.unsent := by
  induction hwork : c.work frames using Nat.strong_induction_on generalizing c with
  | _ n ih =>
    by_cases hdone : c.AwaitsClient
    · exact ⟨c, .start, hdone, h, rfl⟩
    · obtain ⟨e, hcalm, hslot', hless, hunsent⟩ := h.advance hpsync hfits hslot hdone
      obtain ⟨c', hrun, hrest⟩ := ih _ (hwork ▸ hless) (h.step hpsync hcalm) hslot' rfl
      exact ⟨c', (RunsTo.start.next e hcalm).trans hrun, hrest.1, hrest.2.1, hrest.2.2.trans hunsent⟩

end

end Connection

/-- Where nothing panics and no frame is put where another one waits, every frame of the client is
handled once, in order, and answered. Wherever the connection stands, it can go on until it has
handled and flushed all that it has received. -/
theorem connection_handles_in_order (hsent : DecodesAs sent frames) (hsize : sent.length < 2 ^ 63)
    (hpsync : ∀ f ∈ frames, isPsyncCommand f = false)
    (hrun : RunsTo (Connection.step F) (Connection.Undisturbed F) (.start sent) c) :
    c.phase ≠ .closed ∧
      (∃ rest, DecodesAs (c.buffer ++ c.unsent) rest ∧
        c.handled.map Prod.fst ++ c.current ++ c.pending.toList ++ rest = frames) ∧
      (c.AwaitsClient → c.unsent = [] →
        c.handled.map Prod.fst = frames ∧ c.flushed = c.handled.length) ∧
      ∀ mono, (∀ f ∈ frames, ∀ secs : F, blockingTimeout F f = some (.ok secs) →
          deadlineOverflows mono secs = false) → c.SlotFree →
        ∃ c', RunsTo (Connection.step F) (Connection.Undisturbed F) c c' ∧ c'.AwaitsClient ∧
          c'.unsent = c.unsent ∧ c'.flushed = c'.handled.length := by
  have h : c.InOrder frames :=
    hrun.invariant (.start hsent hsize) fun c e hcalm h => h.step hpsync hcalm
  refine ⟨h.alive, h.order, fun ⟨hphase, hpending, hwait⟩ hunsent => ⟨?_, h.flushed hphase hpending⟩,
    fun mono hfits hslot => ?_⟩
  swap
  · obtain ⟨c', hrun', hawaits, hinorder, hunsent⟩ := h.catches_up hpsync hfits hslot
    exact ⟨c', hrun', hawaits, hunsent, hinorder.flushed hawaits.1 hawaits.2.1⟩
  obtain ⟨rest, hreads, horder⟩ := h.order
  rw [hunsent, List.append_nil] at hreads
  obtain rfl := hreads.eq_nil hwait
  have hcurrent : c.current = [] := by
    unfold Connection.current
    rw [hphase]
  rw [hcurrent, hpending] at horder
  simpa using horder

end

def blpopFrame : Frame := .command [txt "BLPOP", txt "k", txt "0"]

def pingFrame : Frame := .command [txt "PING"]

theorem blpopFrame_resp2 : Resp2Frame blpopFrame := (WireFrame.command _).resp2 (by decide)

theorem pingFrame_resp2 : Resp2Frame pingFrame := (WireFrame.command _).resp2 (by decide)

def received (phase : Phase) (frames : List Frame) (pending : Option Frame)
    (handled : List (Frame × Frame)) (flushed : Nat) : Connection :=
  ⟨phase, [], frames.flatMap (encode .resp2), pending, handled, flushed⟩

variable {f : Frame} {fs : List Frame} {pending : Option Frame} {handled : List (Frame × Frame)}
  {flushed : Nat}

theorem received_pull (hf : Resp2Frame f) :
    (received .next (f :: fs) none handled flushed).pull =
      some (f, received .next fs none handled flushed) := by
  simp only [Connection.pull, received, decode_flatMap_encode hf, drop_flatMap_encode]

theorem received_park (hf : Resp2Frame f) (phase : Phase) (waiting : Connection) :
    (received phase (f :: fs) pending handled flushed).park waiting =
      received phase fs (some f) handled flushed := by
  simp only [Connection.park, received, decode_flatMap_encode hf, drop_flatMap_encode]

theorem blockingTimeout_blpop : blockingTimeout Score blpopFrame = some (.ok (F64.ofNat 0)) := by
  rfl

theorem step_turn {c c' : Connection} {frame : Frame} (hphase : c.phase = .next)
    (hpull : c.pull = some (frame, c')) (reply : Option Frame) (mono : Nat) :
    c.step Score (.turn reply mono) = c'.handle Score frame reply mono := by
  simp only [Connection.step, hphase, hpull]

def poppedReplyFrame : Frame := .command [txt "k", txt "v"]

def pongReply : Frame := .simple (txt "PONG")

theorem pipelined_behind_blpop (fs : List Frame) :
    RunsTo (Connection.step Score) (Connection.Undisturbed Score)
      (.start ((blpopFrame :: pingFrame :: fs).flatMap (encode .resp2)))
      (received .answered fs (some pingFrame) [(blpopFrame, poppedReplyFrame)] 0) := by
  have harrive : (Connection.start ((blpopFrame :: pingFrame :: fs).flatMap (encode .resp2))).step
      Score (.arrive ((blpopFrame :: pingFrame :: fs).flatMap (encode .resp2)).length) =
      received .next (blpopFrame :: pingFrame :: fs) none [] 0 := by
    simp only [Connection.step, Connection.start, received, List.take_length, List.drop_length,
      List.nil_append]
  have hturn : (received .next (blpopFrame :: pingFrame :: fs) none [] 0).step Score
      (.turn (some .null) 0) =
      received (.attempting blpopFrame false) (pingFrame :: fs) none [] 0 := by
    have hpsync : isPsyncCommand blpopFrame = false := by decide
    rw [step_turn rfl (received_pull blpopFrame_resp2), Connection.handle, hpsync,
      blockingTimeout_blpop]
    rfl
  have hstash : (received (.asleep blpopFrame false) (pingFrame :: fs) none [] 0).step Score
      .stash = received (.attempting blpopFrame false) fs (some pingFrame) [] 0 :=
    received_park pingFrame_resp2 (.attempting blpopFrame false)
      (received (.asleep blpopFrame false) (pingFrame :: fs) none [] 0)
  have hcalm : (received .next (blpopFrame :: pingFrame :: fs) none [] 0).Undisturbed Score
      (.turn (some .null) 0) := by
    refine ⟨rfl, fun frame c' hpull secs hsecs => ?_⟩
    rw [received_pull blpopFrame_resp2] at hpull
    cases hpull
    rw [blockingTimeout_blpop] at hsecs
    cases hsecs
    decide
  have hreceived : RunsTo (Connection.step Score) (Connection.Undisturbed Score)
      (.start ((blpopFrame :: pingFrame :: fs).flatMap (encode .resp2)))
      (received .next (blpopFrame :: pingFrame :: fs) none [] 0) :=
    harrive ▸ RunsTo.start.next
      (ConnectionEvent.arrive ((blpopFrame :: pingFrame :: fs).flatMap (encode .resp2)).length) trivial
  have hblocked := hreceived.next (.turn (some .null) 0) hcalm
  rw [hturn] at hblocked
  have hasleep := hblocked.next (.attempt (some .null) false) rfl
  have hparked := hasleep.next .stash trivial
  have hparked' : RunsTo (Connection.step Score) (Connection.Undisturbed Score) _
    (received (.attempting blpopFrame false) fs (some pingFrame) [] 0) := hstash ▸ hparked
  exact hparked'.next (.attempt (some poppedReplyFrame) false) rfl

theorem received_answers_ping (handled : List (Frame × Frame)) (flushed : Nat) :
    (received .next [] (some pingFrame) handled flushed).step Score
      (.turn (some pongReply) 0) =
      received .answered [] none (handled ++ [(pingFrame, pongReply)]) flushed := by
  have hpsync : isPsyncCommand pingFrame = false := by decide
  have htimeout : blockingTimeout Score pingFrame = none := rfl
  have hpull : (received .next [] (some pingFrame) handled flushed).pull =
      some (pingFrame, received .next [] none handled flushed) := rfl
  rw [step_turn rfl hpull, Connection.handle, hpsync, htimeout]
  rfl

theorem connection_handles_pipelined :
    ∃ c : Connection,
      RunsTo (Connection.step Score) (Connection.Undisturbed Score)
        (.start ([blpopFrame, pingFrame].flatMap (encode .resp2))) c ∧
      c.AwaitsClient ∧ c.handled.map Prod.fst = [blpopFrame, pingFrame] ∧
      c.flushed = c.handled.length := by
  have hall : ∀ f ∈ [blpopFrame, pingFrame], Resp2Frame f := by
    simp [blpopFrame_resp2, pingFrame_resp2]
  have hpsync : ∀ f ∈ [blpopFrame, pingFrame], isPsyncCommand f = false := by decide
  have hsize : ([blpopFrame, pingFrame].flatMap (encode .resp2)).length < 2 ^ 63 := by
    decide
  have hfits : ∀ f ∈ [blpopFrame, pingFrame], ∀ secs : Score,
      blockingTimeout Score f = some (.ok secs) → deadlineOverflows 0 secs = false := by
    intro f hf secs hsecs
    rcases List.mem_pair.mp hf with rfl | rfl
    · rw [blockingTimeout_blpop] at hsecs
      cases hsecs
      decide
    · cases hsecs
  -- the BLPOP is answered, the PING waits in the slot
  have hblocked := pipelined_behind_blpop []
  obtain ⟨c, hrest, hawaits, hunsent, -⟩ := (connection_handles_in_order (.encode hall) hsize hpsync
    hblocked).2.2.2 0 hfits (.inr (.inr rfl))
  have hrun := hblocked.trans hrest
  exact ⟨c, hrun, hawaits, (connection_handles_in_order (.encode hall) hsize hpsync hrun).2.2.1
    hawaits hunsent⟩

/-- The second frame behind a BLPOP that blocks takes the place of the first. -/
theorem connection_drops_frame :
    ∃ c : Connection,
      RunsTo (Connection.step Score) (fun _ _ => True)
        (.start ([blpopFrame, pingFrame, pingFrame].flatMap (encode .resp2))) c ∧
      c.AwaitsClient ∧ c.unsent = [] ∧
      c.handled.map Prod.fst ≠ [blpopFrame, pingFrame, pingFrame] := by
  have hblocked : RunsTo (Connection.step Score) (fun _ _ => True) _
      (received .answered [pingFrame] (some pingFrame) [(blpopFrame, poppedReplyFrame)] 0) :=
    (pipelined_behind_blpop [pingFrame]).mono fun _ _ _ => trivial
  have hpeek : (received .answered [pingFrame] (some pingFrame)
      [(blpopFrame, poppedReplyFrame)] 0).step Score .peek =
      received .next [] (some pingFrame) [(blpopFrame, poppedReplyFrame)] 0 :=
    received_park pingFrame_resp2 .next
      (received .next [pingFrame] (some pingFrame) [(blpopFrame, poppedReplyFrame)] 0).flush
  have hpeeked := hblocked.next .peek trivial
  rw [hpeek] at hpeeked
  have hanswered := hpeeked.next (.turn (some pongReply) 0) trivial
  rw [received_answers_ping] at hanswered
  have hrun := hanswered.next .peek trivial
  refine ⟨_, hrun, ⟨rfl, rfl, rfl⟩, rfl, fun hall => ?_⟩
  exact absurd (congrArg List.length hall) (by decide)

end RocketMem
