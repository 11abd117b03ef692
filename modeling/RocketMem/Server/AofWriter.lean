import RocketMem.Framework.Transition
import RocketMem.Server.SoloRun

namespace RocketMem

open List Function

/-- Files by what of them is durable and what is only written. -/
abbrev Files := Path → Option (Bytes × Bytes)

namespace Files

def touch (files : Files) (path : Path) (g : Bytes × Bytes → Bytes × Bytes) : Files :=
  update files path ((files path).map g)

def grow (b : Bytes) (f : Bytes × Bytes) : Bytes × Bytes := (f.1, f.2 ++ b)

def settle (f : Bytes × Bytes) : Bytes × Bytes := (f.1 ++ f.2, [])

variable (files : Files) (path : Path)

theorem touch_touch (g h : Bytes × Bytes → Bytes × Bytes) :
    (files.touch path g).touch path h = files.touch path (h ∘ g) := by
  simp only [touch, update_self, update_idem, Option.map_map]

theorem touch_grow_nil : files.touch path (grow []) = files := by
  have hnil : grow [] = id := funext fun f => Prod.ext rfl (append_nil _)
  rw [touch, hnil, Option.map_id, id, update_eq_self]

theorem touch_grow_grow (a b : Bytes) :
    (files.touch path (grow a)).touch path (grow b) = files.touch path (grow (a ++ b)) := by
  rw [touch_touch]
  exact congrArg _ (funext fun f => Prod.ext rfl (append_assoc _ _ _))

end Files

open Files

/-- What the writer thread is asked to do, by the method that sends it the message. -/
inductive AofCall where
  | appendEncoded (frame : Frame)
  | fsync
  | rotateTo (path : Path)

/-- Its caller is told how the call ended, and the call syncs the log. -/
def AofCall.Acked (policy : FsyncPolicy) : AofCall → Prop
  | appendEncoded _ => policy = .always
  | fsync => True
  | rotateTo _ => False

/-- The errors that handling one message runs into: when the buffer is written to make room, when
a frame is written past it, at the flush, at `sync_data` and when the next file is opened. -/
structure AofFaults where
  room : Option Fault
  write : Option Fault
  flush : Option Fault
  sync : Option Bytes
  openNext : Option Bytes

/-- The writer thread's file and the `BufWriter` before it. -/
structure AofWriter where
  files : Files
  path : Path
  buffer : Bytes

/-- The capacity of `BufWriter::new`. -/
def bufCapacity : Nat := 8192

def Fault.outcome (x : Option Fault) : IoResult Unit :=
  x.elim (.ok ()) fun fault => .error fault.message

/-- What of the bytes gets to the file. -/
def Fault.part (x : Option Fault) (bytes : Bytes) : Bytes :=
  x.elim bytes fun fault => bytes.take fault.reached

theorem Fault.part_isPrefix (x : Option Fault) (bytes : Bytes) : part x bytes <+: bytes := by
  cases x with
  | none => exact prefix_rfl
  | some fault => exact take_prefix _ _

namespace AofWriter

section

variable (w : AofWriter)

def put (x : Option Fault) (bytes : Bytes) : AofWriter :=
  { w with files := w.files.touch w.path (grow (Fault.part x bytes)) }

/-- `BufWriter::flush_buf`, which keeps what could not be written. -/
def flushBuf (x : Option Fault) : IoResult Unit × AofWriter :=
  (Fault.outcome x, { w.put x w.buffer with buffer := w.buffer.drop (Fault.part x w.buffer).length })

def makeRoom (x : AofFaults) (bytes : Bytes) : IoResult Unit × AofWriter :=
  if bufCapacity - w.buffer.length < bytes.length then w.flushBuf x.room else (.ok (), w)

def writeAll (x : AofFaults) (bytes : Bytes) : IoResult Unit × AofWriter :=
  if bytes.length < bufCapacity - w.buffer.length then
    (.ok (), { w with buffer := w.buffer ++ bytes })
  else
    match w.makeRoom x bytes with
    | (.error e, w) => (.error e, w)
    | (.ok (), w) =>
      if bufCapacity ≤ bytes.length then (Fault.outcome x.write, w.put x.write bytes)
      else (.ok (), { w with buffer := w.buffer ++ bytes })

def flushAndSync (x : AofFaults) : IoResult Unit × AofWriter :=
  match w.flushBuf x.flush, x.sync with
  | (.error e, w), _ | (.ok (), w), some e => (.error e, w)
  | (.ok (), w), none => (.ok (), { w with files := w.files.touch w.path settle })

/-- One message, and what its sender is told: of a plain append only that it was sent. -/
def handle (policy : FsyncPolicy) (x : AofFaults) : AofCall → IoResult Unit × AofWriter
  | .appendEncoded frame =>
    match policy, w.writeAll x (encode .resp2 frame) with
    | .always, (.ok (), w) => w.flushAndSync x
    | .always, r => r
    | _, (_, w) => (.ok (), w)
  | .fsync => w.flushAndSync x
  | .rotateTo path =>
    match w.flushAndSync x, x.openNext with
    | (.error e, w), _ | (.ok (), w), some e => (.error e, w)
    | (.ok (), w), none =>
      (.ok (), ⟨update w.files path (some ((w.files path).getD ([], []))), path, []⟩)

/-- What a crash leaves of the files, when so many of the bytes that are only written get there. -/
def crash (keep : Path → Nat) (p : Path) : Option Bytes :=
  (w.files p).map fun f => f.1 ++ f.2.take (keep p)

/-- Nothing of the log is lost in a crash. -/
def Settled : Prop := w.buffer = [] ∧ ∀ f, w.files w.path = some f → f.2 = []

/-- The files as they are once the buffer is written. -/
def joined : Files := w.files.touch w.path (grow w.buffer)

/-- The log, with what is still in the buffer, stays shorter than a file can be. -/
def HasRoom (n : Nat) : Prop :=
  ∀ f, w.joined w.path = some f → ((f.1.length + f.2.length + n : Nat) : Int) ≤ i64Max

theorem flushBuf_joined (x : Option Fault) : (w.flushBuf x).2.joined = w.joined := by
  simp only [joined, flushBuf, put, touch_grow_grow,
    ← prefix_append_drop (Fault.part_isPrefix x w.buffer)]

theorem flushBuf_empty {x : Option Fault} (hok : (w.flushBuf x).1 = .ok ()) :
    (w.flushBuf x).2.buffer = [] := by
  cases x with
  | none => exact drop_length
  | some fault => cases hok

variable (x : AofFaults) (bytes : Bytes)

theorem makeRoom_joined : (w.makeRoom x bytes).2.joined = w.joined := by
  unfold makeRoom
  split
  · exact w.flushBuf_joined x.room
  · rfl

theorem makeRoom_path : (w.makeRoom x bytes).2.path = w.path := by
  unfold makeRoom
  split <;> rfl

theorem makeRoom_empty (hok : (w.makeRoom x bytes).1 = .ok ())
    (hwhole : bufCapacity ≤ bytes.length) : (w.makeRoom x bytes).2.buffer = [] := by
  unfold makeRoom at hok ⊢
  split at hok
  · next hfull =>
    rw [if_pos hfull]
    exact w.flushBuf_empty hok
  · next hspace =>
    -- there is space for as much as the buffer takes, so nothing is in it
    rw [if_neg hspace]
    have hnone : w.buffer.length = 0 := by
      unfold bufCapacity at *
      omega
    exact length_eq_zero_iff.mp hnone

/-- What is written goes to the buffer, to the file or nowhere. -/
theorem writeAll_joined : ∃ x', (w.writeAll x bytes).1 = Fault.outcome x' ∧
    (w.writeAll x bytes).2.path = w.path ∧
    (w.writeAll x bytes).2.joined = w.joined.touch w.path (grow (Fault.part x' bytes)) ∧
    (x.room = none → x.write = none → x' = none) := by
  have hbuffered (w : AofWriter) : joined { w with buffer := w.buffer ++ bytes } =
      w.joined.touch w.path (grow bytes) := (touch_grow_grow ..).symm
  have hroom := w.makeRoom_joined x bytes
  have hpath := w.makeRoom_path x bytes
  have hempty := w.makeRoom_empty x bytes
  unfold writeAll
  split
  · exact ⟨none, rfl, rfl, hbuffered w, fun _ _ => rfl⟩
  · rcases hdone : w.makeRoom x bytes with ⟨e | _, w₁⟩ <;> rw [hdone] at hroom hpath hempty
    · refine ⟨some ⟨0, e⟩, rfl, hpath, hroom.trans (touch_grow_nil ..).symm, fun hnone => ?_⟩
      unfold makeRoom flushBuf at hdone
      rw [hnone] at hdone
      split at hdone <;> cases hdone
    · dsimp only at hroom hpath hempty ⊢
      rw [← hroom, ← hpath]
      split
      · next hwhole =>
        refine ⟨x.write, rfl, rfl, ?_, fun _ hnone => hnone⟩
        simp only [joined, put, hempty rfl hwhole, touch_grow_nil]
      · exact ⟨none, rfl, rfl, hbuffered w₁, fun _ _ => rfl⟩

/-- All of the log is synced, or nothing of it is changed. -/
theorem flushAndSync_joined : (w.flushAndSync x).2.path = w.path ∧
    ((w.flushAndSync x).1 = .ok () ∧ (w.flushAndSync x).2.Settled ∧
        (w.flushAndSync x).2.joined = w.joined.touch w.path settle ∨
      ∃ e, (w.flushAndSync x).1 = .error e ∧ (w.flushAndSync x).2.joined = w.joined) := by
  have hflushed := w.flushBuf_joined x.flush
  have hempty := w.flushBuf_empty (x := x.flush)
  have hpath : (w.flushBuf x.flush).2.path = w.path := rfl
  unfold flushAndSync
  rcases hflush : w.flushBuf x.flush with ⟨e | _, w₁⟩ <;> rw [hflush] at hflushed hempty hpath
  · exact ⟨hpath, .inr ⟨e, rfl, hflushed⟩⟩
  cases x.sync with
  | some e => exact ⟨hpath, .inr ⟨e, rfl, hflushed⟩⟩
  | none =>
    have hnone : w₁.buffer = [] := hempty rfl
    dsimp only at hflushed hpath
    refine ⟨hpath, .inl ⟨rfl, ⟨hnone, fun f hf => ?_⟩, ?_⟩⟩
    · dsimp only at hf
      rw [touch, update_self] at hf
      obtain ⟨_, -, rfl⟩ := Option.map_eq_some_iff.mp hf
      rfl
    · rw [← hflushed, ← hpath]
      simp only [joined, hnone, touch_grow_nil]

end

end AofWriter

variable {F : Type} [F64 F]

def File.parts (f : File) : Bytes × Bytes := (f.durable, f.pending)

def Node.files (s : Node F) : Files := fun p => (s.disk p).map File.parts

/-- The call as the server model makes it, with nothing between it and the file. -/
def AofCall.program (cfg : Settings) : AofCall → ServerProgram F (IoResult Unit)
  | appendEncoded frame => RocketMem.appendEncoded cfg frame
  | fsync => perform .flush
  | rotateTo path => perform (.rotate path)

/-- The server model's files hold what the writer's files and its buffer hold together. -/
structure AofWriter.Refines (w : AofWriter) (s : Node F) : Prop where
  path : s.aofPath = w.path
  files : s.files = w.joined

namespace Node

variable (s : Node F)

theorem files_setFile (path : Path) (f : Option File) :
    (s.setFile path f).files = update s.files path (f.map File.parts) :=
  funext fun p => apply_update (fun _ f => Option.map File.parts f) s.disk path f p

theorem files_flushed : s.flushed.files = s.files.touch s.aofPath settle := by
  have hset := s.files_setFile s.aofPath ((s.disk s.aofPath).map File.sync)
  rw [Option.map_map] at hset
  rw [touch, files, Option.map_map]
  exact hset

/-- The node appends all of a frame, or as much of it as a fault lets through. -/
theorem files_append {s : Node F} (i : Nat) (x : Option Fault) {frame : Frame}
    (hroom : s.Room (encode .resp2 frame).length) :
    ∃ s', s.append i x frame = (Fault.outcome x, s') ∧ s'.aofPath = s.aofPath ∧
      s'.files = s.files.touch s.aofPath (grow (Fault.part x (encode .resp2 frame))) := by
  cases hf : s.disk s.aofPath with
  | none =>
    have hnone : s.files s.aofPath = none := by rw [files, hf]; rfl
    refine ⟨{ s with log := s.log ++ [(i, frame)] }, ?_, rfl, ?_⟩
    · cases x <;> simp only [append, hf] <;> rfl
    · rw [touch, hnone, Option.map_none, ← hnone, update_eq_self]
      rfl
  | some f =>
    have hpart : ((f.content.length + (Fault.part x (encode .resp2 frame)).length : Nat) : Int) ≤
        i64Max := by
      have hshorter := (Fault.part_isPrefix x (encode .resp2 frame)).length_le
      have hfits := hroom f hf
      omega
    obtain ⟨f', happend⟩ := File.append_of_room hpart
    have hgrown : f'.parts = grow (Fault.part x (encode .resp2 frame)) f.parts := by
      unfold File.append at happend
      split at happend
      · cases happend
        rfl
      · cases happend
    refine ⟨({ s with log := s.log ++ [(i, frame)] } : Node F).setFile s.aofPath (some f'), ?_, rfl,
      ?_⟩
    · cases x <;>
      · simp only [Fault.part, Option.elim] at happend
        simp only [append, hf, happend]
        rfl
    · rw [files_setFile, touch, files, hf, Option.map_some, Option.map_some, hgrown]
      rfl

end Node

namespace AofWriter

variable {w : AofWriter} {s : Node F} (h : w.Refines s) (x : AofFaults)

include h

theorem Refines.room {n : Nat} (hfits : w.HasRoom n) : s.Room n := by
  intro g hg
  have hfile : s.files s.aofPath = some g.parts := by rw [Node.files, hg]; rfl
  rw [h.files, h.path] at hfile
  rw [File.content, length_append]
  exact hfits g.parts hfile

theorem Refines.writeAll (i : Nat) {frame : Frame} (hroom : s.Room (encode .resp2 frame).length) :
    ∃ x' s', s.append i x' frame = ((w.writeAll x (encode .resp2 frame)).1, s') ∧
      (w.writeAll x (encode .resp2 frame)).2.Refines s' := by
  obtain ⟨x', houtcome, hpath, hjoined, -⟩ := w.writeAll_joined x (encode .resp2 frame)
  obtain ⟨s', happend, haof, hfiles⟩ := Node.files_append i x' hroom
  refine ⟨x', s', houtcome ▸ happend, haof.trans (h.path.trans hpath.symm), ?_⟩
  rw [hfiles, hjoined, h.files, h.path]

/-- Either the node's flush fails too, or nothing of the log is lost in a crash from here on. -/
theorem Refines.flushAndSync (cfg : Settings) : ∃ x' s',
    (server F cfg).exec 0 x' .flush s = some ((w.flushAndSync x).1, s') ∧
      (w.flushAndSync x).2.Refines s' ∧ ((w.flushAndSync x).1 = .ok () →
        s' = s.flushed ∧ (w.flushAndSync x).2.Settled) := by
  obtain ⟨hpath, ⟨hok, hsettled, hjoined⟩ | ⟨e, herror, hjoined⟩⟩ := w.flushAndSync_joined x
  · rw [hok]
    refine ⟨none, s.flushed, rfl, ⟨h.path.trans hpath.symm, ?_⟩, fun _ => ⟨rfl, hsettled⟩⟩
    rw [s.files_flushed, h.files, h.path, hjoined]
  · rw [herror]
    exact ⟨some ⟨0, e⟩, s, rfl, ⟨h.path.trans hpath.symm, h.files.trans hjoined.symm⟩,
      fun hok => nomatch hok⟩

/-- Every message that is handled is a call that the node makes at the file itself. -/
theorem Refines.handle (cfg : Settings) (c : AofCall) (hfits : ∀ frame, c = .appendEncoded frame →
      w.HasRoom (encode .resp2 frame).length) :
    ∃ s', (server F cfg).Runs (fun _ _ _ _ => True) 0 (c.program cfg) s
        (.ret (w.handle cfg.policy x c).1) s' ∧ (w.handle cfg.policy x c).2.Refines s' ∧
      (c.Acked cfg.policy → (w.handle cfg.policy x c).1 = .ok () →
        (w.handle cfg.policy x c).2.Settled) := by
  cases c with
  | fsync =>
    obtain ⟨x', s', hexec, hrefines, hflushed⟩ := h.flushAndSync x cfg
    exact ⟨s', .perform x' trivial hexec, hrefines, fun _ hok => (hflushed hok).2⟩
  | appendEncoded frame =>
    obtain ⟨x', s', happend, hrefines⟩ := h.writeAll x 0 (h.room (hfits frame rfl))
    have hcall : (server F cfg).Runs (fun _ _ _ _ => True) 0 (perform (.append frame)) s _ s' :=
      .perform x' trivial (congrArg some happend)
    unfold AofWriter.handle
    dsimp only
    cases hpolicy : cfg.policy with
    | always =>
      rcases hwritten : w.writeAll x (encode .resp2 frame) with ⟨e | _, w₁⟩ <;>
        rw [hwritten] at hcall hrefines
      · refine ⟨s', hcall.bind ?_, hrefines, fun _ hok => nomatch hok⟩
        rw [if_pos hpolicy]
        exact .refl _ _
      · obtain ⟨x'', s'', hexec, hrefines', hflushed⟩ := hrefines.flushAndSync x cfg
        refine ⟨s'', hcall.bind ?_, hrefines', fun _ hok => (hflushed hok).2⟩
        rw [if_pos hpolicy]
        exact .perform x'' trivial hexec
    | everySecond | never =>
      refine ⟨s', hcall.bind ?_, hrefines, fun hacked => nomatch hacked⟩
      rw [hpolicy]
      exact .refl _ _
  | rotateTo path =>
    obtain ⟨x', s', hexec, hrefines, hflushed⟩ := h.flushAndSync x cfg
    unfold AofWriter.handle
    dsimp only
    rcases hdone : w.flushAndSync x with ⟨e | _, w₁⟩ <;> rw [hdone] at hexec hrefines hflushed
    · cases x' with
      | none => cases hexec
      | some fault =>
        cases hexec
        exact ⟨s, .perform (some ⟨0, fault.message⟩) trivial rfl, hrefines, False.elim⟩
    · obtain ⟨rfl, hempty, -⟩ := hflushed rfl
      cases x.openNext with
      | some e => exact ⟨s.flushed, .perform (some ⟨1, e⟩) trivial rfl, hrefines, False.elim⟩
      | none =>
        refine ⟨s.flushed.openAof path, .perform none trivial rfl, ⟨rfl, ?_⟩, False.elim⟩
        have hfiles := hrefines.files
        dsimp only at hempty hfiles
        rw [joined, hempty, touch_grow_nil] at hfiles
        have hopened := s.flushed.files_setFile path (some ((s.flushed.disk path).getD .empty))
        rw [joined, touch_grow_nil]
        refine hopened.trans ?_
        change _ = update w₁.files path (some ((w₁.files path).getD ([], [])))
        rw [← hfiles, Node.files]
        cases s.flushed.disk path <;> rfl

/-- A crash leaves of the writer's files what it can leave of the node's. -/
theorem Refines.crash (keep : Path → Nat) : ∃ keep', (s.disk.crash keep').read = w.crash keep := by
  have hread (keep' : Path → Nat) (p : Path) : (s.disk.crash keep').read p =
      (w.joined p).map fun f => f.1 ++ f.2.take (keep' p) := by
    rw [← h.files, Node.files, Disk.read, Disk.crash, Option.map_map, Option.map_map]
    exact congrFun (congrArg _ (funext fun f => f.content_crash _)) _
  have hjoined (p : Path) (hp : p ≠ w.path) : w.joined p = w.files p := update_of_ne hp ..
  have hown : w.joined w.path = (w.files w.path).map (grow w.buffer) := update_self ..
  refine ⟨update keep w.path (min (keep w.path) ((w.files w.path).elim 0 (·.2.length))),
    funext fun p => ?_⟩
  rw [hread, AofWriter.crash]
  by_cases hp : p = w.path
  · rw [hp, hown, update_self]
    cases w.files w.path with
    | none => rfl
    | some f =>
      simp only [Option.map_some, Option.elim, grow]
      rw [take_append_of_le_length (Nat.min_le_right _ _), ← take_eq_take_min]
  · rw [hjoined p hp, update_of_ne hp]

end AofWriter

/-- The writer thread after it has handled messages, and what their senders were told. -/
structure AofThread where
  writer : AofWriter
  handled : List AofCall
  answers : List (IoResult Unit)

namespace AofThread

def start (w : AofWriter) : AofThread := ⟨w, [], []⟩

/-- The loop over the queue, which gives out the messages in the order in which they were sent. -/
def step (policy : FsyncPolicy) (t : AofThread) (e : AofCall × AofFaults) : AofThread where
  writer := (t.writer.handle policy e.2 e.1).2
  handled := t.handled ++ [e.1]
  answers := t.answers ++ [(t.writer.handle policy e.2 e.1).1]

def Fits (t : AofThread) (e : AofCall × AofFaults) : Prop :=
  ∀ frame, e.1 = .appendEncoded frame → t.writer.HasRoom (encode .resp2 frame).length

end AofThread

/-- Calls that the node makes one after another, with whatever errors. -/
inductive Serves (cfg : Settings) (start : Node F) :
    List AofCall → List (IoResult Unit) → Node F → Prop
  | nil : Serves cfg start [] [] start
  | concat {cs : List AofCall} {rs : List (IoResult Unit)} {s s' : Node F} {c : AofCall}
      {r : IoResult Unit} (h : Serves cfg start cs rs s)
      (hc : (server F cfg).Runs (fun _ _ _ _ => True) 0 (c.program cfg) s (.ret r) s') :
      Serves cfg start (cs ++ [c]) (rs ++ [r]) s'

/-- Whatever messages the writer thread is sent and whatever errors it runs into, the messages and
their answers are calls that the node makes at the file itself. A crash leaves of the thread's files
what a crash can leave of the node's, and nothing of the log is lost in one right after an append or
an fsync that has been acknowledged. -/
theorem writer_thread_refines (cfg : Settings) (w : AofWriter) (s : Node F) (h : w.Refines s)
    (t : AofThread) (ht : RunsTo (AofThread.step cfg.policy) AofThread.Fits (.start w) t) :
    (∃ s', Serves cfg s t.handled t.answers s' ∧
        ∀ keep, ∃ keep', (s'.disk.crash keep').read = t.writer.crash keep) ∧
      ∀ c x, t.Fits (c, x) → c.Acked cfg.policy → (t.writer.handle cfg.policy x c).1 = .ok () →
        (t.writer.handle cfg.policy x c).2.Settled := by
  have hinv : ∃ s', Serves cfg s t.handled t.answers s' ∧ t.writer.Refines s' := by
    induction ht with
    | start => exact ⟨s, .nil, h⟩
    | next _ e hfits ih =>
      obtain ⟨s', hserves, hrefines⟩ := ih
      obtain ⟨s'', hc, hrefines', -⟩ := hrefines.handle e.2 cfg e.1 hfits
      exact ⟨s'', hserves.concat hc, hrefines'⟩
  obtain ⟨s', hserves, hrefines⟩ := hinv
  refine ⟨⟨s', hserves, hrefines.crash⟩, fun c x hfits => ?_⟩
  obtain ⟨-, -, -, hsettled⟩ := hrefines.handle x cfg c hfits
  exact hsettled

/-- A writer on the empty log of a fresh server. -/
def AofWriter.fresh : AofWriter :=
  ⟨(Node.new (.ofPolicy .always) : Node Score).files, txt "./appendonly.aof", []⟩

theorem writer_thread_refines_ping : ∃ s' : Node Score,
    Serves (.ofPolicy .always) (.new (.ofPolicy .always))
      [.appendEncoded (.command [txt "PING"])] [.ok ()] s' := by
  have hfresh : AofWriter.fresh.Refines (.new (.ofPolicy .always) : Node Score) :=
    ⟨rfl, (touch_grow_nil ..).symm⟩
  have hruns : RunsTo (AofThread.step .always) AofThread.Fits (.start .fresh) _ :=
    .next .start (.appendEncoded (.command [txt "PING"]), ⟨none, none, none, none, none⟩)
      fun _ hframe f hf => by
        cases hframe
        cases hf
        decide
  obtain ⟨⟨s', hserves, -⟩, -⟩ := writer_thread_refines (.ofPolicy .always) .fresh _ hfresh _ hruns
  exact ⟨s', hserves⟩

end RocketMem
