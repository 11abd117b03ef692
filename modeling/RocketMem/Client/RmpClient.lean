import RocketMem.Framework.HashMap
import RocketMem.Protocol.Rmp

namespace RocketMem

open Option Finmap

namespace Rmp

inductive RmpError where
  | connectionClosed

/-- The replies that calls wait for. A sender is named by the call that has its receiver. -/
inductive PendingReplies where
  | opened (map : HashMap UInt64 Nat)
  | closed

/-- Where a call is: it has its id, has registered, has handed its request to the writer and
awaits the reply, or is over. -/
inductive CallStage where
  | numbered
  | registered
  | waiting
  | returned (result : Except RmpError Frame)
  | cancelled

/-- A call. `since` is how many responses had arrived when it registered, and `sent` what is in
its oneshot channel: the frame, and the number of the response it came in. -/
structure Call where
  id : UInt64
  args : List Bytes
  stage : CallStage
  since : Option Nat
  sent : Option (Frame × Nat)

structure Arrival where
  message : RmpMessage
  receiver : Option Nat

/-- The reader task: at `stream.next`, about to lock with a response, about to send with a sender
and no lock, about to lock for the last time, or over. -/
inductive ReaderStage where
  | reading
  | holding (message : RmpMessage)
  | sending (i : Nat) (frame : Frame) (k : Nat)
  | closing
  | ended

/-- A client: the calls in the order in which they took their ids, what is on its way to the
writer task, if that has not ended, and what has arrived so far. -/
structure RmpClient where
  nextId : UInt64
  pending : PendingReplies
  calls : List Call
  outbox : Option (List RmpMessage)
  written : List RmpMessage
  reader : ReaderStage
  arrived : List Arrival

/-- What can happen next. The server may send any message at any time. -/
inductive RmpClientEvent where
  /-- `next_id.fetch_add` of a new call. -/
  | enter (args : List Bytes)
  | register (i : Nat)
  | send (i : Nat)
  | receive (i : Nat)
  | cancel (i : Nat)
  | write (ok : Bool)
  | read (message : RmpMessage)
  | finish
  | look
  | deliver
  | close

namespace RmpClient

section

variable (c : RmpClient)

def start : RmpClient := ⟨1, .opened ∅, [], some [], [], .reading, []⟩

def enter (args : List Bytes) : RmpClient :=
  { c with
    nextId := c.nextId + 1
    calls := c.calls ++ [⟨c.nextId, args, .numbered, none, none⟩] }

def update (i : Nat) (f : Call → Call) : RmpClient := { c with calls := c.calls.modify i f }

def setStage (i : Nat) (stage : CallStage) : RmpClient :=
  c.update i fun t => { t with stage := stage }

def register (i : Nat) (t : Call) : RmpClient :=
  match t.stage, c.pending with
  | .numbered, .opened map =>
    { c.update i fun t => { t with stage := .registered, since := some c.arrived.length } with
      pending := .opened (map.insert t.id i) }
  | .numbered, .closed => c.setStage i (.returned (.error .connectionClosed))
  | _, _ => c

def send (i : Nat) (t : Call) : RmpClient :=
  match t.stage, c.outbox with
  | .registered, some outbox =>
    { c.setStage i .waiting with
      outbox := some (outbox ++ [⟨t.id, .request, .array (t.args.map .bulk)⟩]) }
  | .registered, none => c.setStage i (.returned (.error .connectionClosed))
  | _, _ => c

/-- The sender of a registered call is in the map, or the reader has it. Otherwise it is dropped:
it has sent, another call has taken its place, or the map is gone. -/
def hasSender (i : Nat) (t : Call) : Bool :=
  (match c.pending with
    | .opened map => map.lookup t.id = some i
    | .closed => false) ||
  (match c.reader with
    | .sending j _ _ => i = j
    | _ => false)

def receive (i : Nat) (t : Call) : RmpClient :=
  match t.stage, t.sent with
  | .waiting, some (frame, _) => c.setStage i (.returned (.ok frame))
  | .waiting, none =>
    if c.hasSender i t then c else c.setStage i (.returned (.error .connectionClosed))
  | _, _ => c

def cancel (i : Nat) (t : Call) : RmpClient :=
  match t.stage with
  | .waiting => c.setStage i .cancelled
  | _ => c

/-- The writer task ends, and with it the channel to it, when the socket fails it. -/
def write (ok : Bool) : RmpClient :=
  match c.outbox with
  | some (message :: outbox) =>
    if ok then { c with outbox := some outbox, written := c.written ++ [message] }
    else { c with outbox := none }
  | _ => c

def look (message : RmpMessage) : RmpClient :=
  match c.pending with
  | .opened map =>
    match map.lookup message.requestId with
    | some i =>
      { c with
        pending := .opened (map.erase message.requestId)
        arrived := c.arrived ++ [⟨message, some i⟩]
        reader := .sending i message.frame c.arrived.length }
    | none => { c with arrived := c.arrived ++ [⟨message, none⟩], reader := .reading }
  | .closed => { c with arrived := c.arrived ++ [⟨message, none⟩], reader := .reading }

def onCall (i : Nat) (f : Call → RmpClient) : RmpClient := (c.calls[i]?).elim c f

def step : RmpClientEvent → RmpClient
  | .enter args => c.enter args
  | .register i => c.onCall i (c.register i)
  | .send i => c.onCall i (c.send i)
  | .receive i => c.onCall i (c.receive i)
  | .cancel i => c.onCall i (c.cancel i)
  | .write ok => c.write ok
  | .read message =>
    match c.reader with
    | .reading =>
      if message.msgType = .response then { c with reader := .holding message } else c
    | _ => c
  | .finish =>
    match c.reader with
    | .reading => { c with reader := .closing }
    | _ => c
  | .look =>
    match c.reader with
    | .holding message => c.look message
    | _ => c
  | .deliver =>
    match c.reader with
    | .sending i frame k =>
      { c.update i fun t => { t with sent := some (frame, k) } with reader := .reading }
    | _ => c
  | .close =>
    match c.reader with
    | .closing => { c with pending := .closed, reader := .ended }
    | _ => c

end

def Answers (arrived : List Arrival) (i : Nat) (t : Call) (frame : Frame) (k : Nat) : Prop :=
  ∃ n, t.since = some n ∧ n ≤ k ∧ arrived[k]? = some ⟨⟨t.id, .response, frame⟩, some i⟩ ∧
    ∀ j a, n ≤ j → j < k → arrived[j]? = some a → a.message.requestId ≠ t.id

def Registered (c : RmpClient) (i : Nat) : Prop :=
  ∃ map id, c.pending = .opened map ∧ map.lookup id = some i

structure Pairs (c : RmpClient) : Prop where
  /-- A call that returns a frame has it from a response that is for it. -/
  first : ∀ (i : Nat) (t : Call) (frame : Frame), c.calls[i]? = some t →
    t.stage = .returned (.ok frame) →
    ∃ k, t.sent = some (frame, k) ∧ Answers c.arrived i t frame k
  distinct : c.calls.length < 2 ^ 64 → ∀ (i j : Nat) (t u : Call), c.calls[i]? = some t →
    c.calls[j]? = some u → t.id = u.id → i = j
  /-- No response is delivered to two calls. -/
  once : ∀ (i j : Nat) (t u : Call) (f g : Frame) (k : Nat), c.calls[i]? = some t →
    c.calls[j]? = some u → t.sent = some (f, k) → u.sent = some (g, k) → i = j
  /-- When the reader has closed the connection no sender is registered, then and later. -/
  closed : c.reader = .ended → ∀ (events : List RmpClientEvent) (i : Nat),
    ¬ (events.foldl step c).Registered i

def Unanswered (arrived : List Arrival) (t : Call) : Prop :=
  t.sent = none ∧ ∃ n, t.since = some n ∧ n ≤ arrived.length ∧
    ∀ (k : Nat) a, n ≤ k → arrived[k]? = some a → a.message.requestId ≠ t.id

structure Sound (arrived : List Arrival) (i : Nat) (t : Call) : Prop where
  id : t.id = UInt64.ofNat (i + 1)
  fresh : t.stage = .numbered → t.sent = none ∧ t.since = none
  sent : ∀ frame k, t.sent = some (frame, k) → Answers arrived i t frame k
  answered : ∀ frame, t.stage = .returned (.ok frame) → ∃ k, t.sent = some (frame, k)

structure Paired (c : RmpClient) : Prop where
  next : c.nextId = UInt64.ofNat (c.calls.length + 1)
  sound : ∀ (i : Nat) t, c.calls[i]? = some t → Sound c.arrived i t
  entry : ∀ map id i, c.pending = .opened map → map.lookup id = some i →
    ∃ t, c.calls[i]? = some t ∧ t.id = id ∧ Unanswered c.arrived t
  response : ∀ m, c.reader = .holding m → m.msgType = .response
  /-- The sender that the reader has taken out of the map. -/
  inHand : ∀ i frame k, c.reader = .sending i frame k →
    ∃ t, c.calls[i]? = some t ∧ t.sent = none ∧ Answers c.arrived i t frame k ∧
      ∀ map, c.pending = .opened map → map.lookup t.id ≠ some i
  closed : c.pending = .closed ↔ c.reader = .ended

section

variable {c : RmpClient} {i : Nat} {t : Call} {arrived : List Arrival} {map : HashMap UInt64 Nat}

theorem getElem?_append_some {α : Type} {l : List α} {x : α} (h : l[i]? = some x) (l' : List α) :
    (l ++ l')[i]? = some x := by
  obtain ⟨hlt, -⟩ := List.getElem?_eq_some_iff.mp h
  rwa [List.getElem?_append_left hlt]

theorem getElem?_concat {α : Type} {l : List α} {x y : α} (h : (l ++ [y])[i]? = some x) :
    l[i]? = some x ∨ i = l.length ∧ x = y := by
  rcases lt_or_ge i l.length with hlt | hge
  · rw [List.getElem?_append_left hlt] at h
    exact .inl h
  · rw [List.getElem?_append_right hge, List.getElem?_singleton] at h
    split at h
    · exact .inr ⟨by omega, (some.inj h).symm⟩
    · cases h

theorem Answers.append {frame : Frame} {k : Nat} (h : Answers arrived i t frame k) (a : Arrival) :
    Answers (arrived ++ [a]) i t frame k := by
  obtain ⟨n, hn, hle, hk, hfirst⟩ := h
  refine ⟨n, hn, hle, getElem?_append_some hk _, ?_⟩
  intro j b hnj hjk hb
  obtain ⟨hlt, -⟩ := List.getElem?_eq_some_iff.mp hk
  rw [List.getElem?_append_left (hjk.trans hlt)] at hb
  exact hfirst j b hnj hjk hb

theorem Sound.append (h : Sound arrived i t) (a : Arrival) : Sound (arrived ++ [a]) i t :=
  ⟨h.id, h.fresh, fun frame k hk => (h.sent frame k hk).append a, h.answered⟩

theorem Unanswered.append (h : Unanswered arrived t) {a : Arrival}
    (ha : a.message.requestId ≠ t.id) : Unanswered (arrived ++ [a]) t := by
  obtain ⟨hempty, n, hn, hle, hnone⟩ := h
  refine ⟨hempty, n, hn, by simp; omega, ?_⟩
  intro k b hk hb
  rcases getElem?_concat hb with hold | ⟨-, rfl⟩
  · exact hnone k b hk hold
  · exact ha

theorem Unanswered.answers (h : Unanswered arrived t) (i : Nat) (frame : Frame) :
    Answers (arrived ++ [⟨⟨t.id, .response, frame⟩, some i⟩]) i t frame arrived.length := by
  obtain ⟨-, n, hn, hle, hnone⟩ := h
  refine ⟨n, hn, hle, List.getElem?_concat_length, ?_⟩
  intro j a hnj hj ha
  rw [List.getElem?_append_left hj] at ha
  exact hnone j a hnj ha

theorem getElem?_update (f : Call → Call) (j : Nat) :
    (c.update i f).calls[j]? = if i = j then (c.calls[j]?).map f else c.calls[j]? := by
  rw [update, List.getElem?_modify]
  split <;> simp

theorem sound_update (h : c.Paired) {f : Call → Call}
    (hf : ∀ t, c.calls[i]? = some t → Sound c.arrived i (f t)) (j : Nat) (u : Call)
    (hu : (c.update i f).calls[j]? = some u) : Sound c.arrived j u := by
  rw [getElem?_update] at hu
  split at hu
  case isTrue heq =>
    subst heq
    obtain ⟨t, ht, rfl⟩ := map_eq_some_iff.mp hu
    exact hf t ht
  case isFalse => exact h.sound j u hu

theorem getElem?_setStage (stage : CallStage) {j : Nat} {u : Call} (hu : c.calls[j]? = some u) :
    ∃ s, (c.setStage i stage).calls[j]? = some { u with stage := s } := by
  rw [setStage, getElem?_update, hu]
  split
  · exact ⟨stage, rfl⟩
  · exact ⟨u.stage, rfl⟩

theorem Paired.setStage (h : c.Paired) {stage : CallStage} (hnew : stage ≠ .numbered)
    (hok : ∀ t frame, c.calls[i]? = some t → stage = .returned (.ok frame) →
      ∃ k, t.sent = some (frame, k)) : (c.setStage i stage).Paired where
  next := by
    rw [RmpClient.setStage, update, List.length_modify]
    exact h.next
  sound := sound_update h fun t ht =>
    ⟨(h.sound i t ht).id, fun hstage => absurd hstage hnew, (h.sound i t ht).sent,
      fun frame => hok t frame ht⟩
  entry map id j hmap hj := by
    obtain ⟨u, hu, hid, hun⟩ := h.entry map id j hmap hj
    obtain ⟨s, hs⟩ := getElem?_setStage stage hu
    exact ⟨_, hs, hid, hun⟩
  response := h.response
  inHand j frame k hreader := by
    obtain ⟨u, hu, hrest⟩ := h.inHand j frame k hreader
    obtain ⟨s, hs⟩ := getElem?_setStage stage hu
    exact ⟨_, hs, hrest⟩
  closed := h.closed

theorem Paired.outbox (h : c.Paired) (outbox : Option (List RmpMessage))
    (written : List RmpMessage) : { c with outbox := outbox, written := written }.Paired :=
  ⟨h.next, h.sound, h.entry, h.response, h.inHand, h.closed⟩

theorem Paired.enter (h : c.Paired) (args : List Bytes) : (c.enter args).Paired where
  next := by
    simp only [RmpClient.enter, h.next, List.length_append, List.length_singleton]
    rw [UInt64.ofNat_add (c.calls.length + 1) 1]
    rfl
  sound i t ht := by
    rcases getElem?_concat ht with hold | ⟨rfl, rfl⟩
    · exact h.sound i t hold
    · exact ⟨h.next, fun _ => ⟨rfl, rfl⟩, fun _ _ hsent => absurd hsent (some_ne_none _).symm,
        fun _ hstage => CallStage.noConfusion hstage⟩
  entry map id i hmap hi := by
    obtain ⟨t, ht, hrest⟩ := h.entry map id i hmap hi
    exact ⟨t, getElem?_append_some ht _, hrest⟩
  response := h.response
  inHand i frame k hreader := by
    obtain ⟨t, ht, hrest⟩ := h.inHand i frame k hreader
    exact ⟨t, getElem?_append_some ht _, hrest⟩
  closed := h.closed

theorem getElem?_update_self (f : Call → Call) (ht : c.calls[i]? = some t) :
    (c.update i f).calls[i]? = some (f t) := by
  rw [getElem?_update, if_pos rfl, ht]
  rfl

theorem Paired.not_ended (h : c.Paired) (hmap : c.pending = .opened map) : c.reader ≠ .ended :=
  fun hended => PendingReplies.noConfusion (hmap.symm.trans (h.closed.mpr hended))

theorem opened_iff {reader : ReaderStage} (h : reader ≠ .ended) :
    PendingReplies.opened map = .closed ↔ reader = .ended :=
  ⟨fun hclosed => PendingReplies.noConfusion hclosed, fun hended => absurd hended h⟩

theorem lookup_erase_eq_some {id id' : UInt64}
    (h : (map.erase id).lookup id' = some i) : id' ≠ id ∧ map.lookup id' = some i := by
  have hne : id' ≠ id := by
    rintro rfl
    rw [lookup_erase] at h
    cases h
  rw [lookup_erase_ne hne] at h
  exact ⟨hne, h⟩

theorem Paired.register (h : c.Paired) (ht : c.calls[i]? = some t) : (c.register i t).Paired := by
  unfold RmpClient.register
  split
  next map hstage hmap =>
    obtain ⟨hsent, hnone⟩ := (h.sound i t ht).fresh hstage
    refine ⟨?_, ?_, ?_, h.response, ?_, opened_iff (h.not_ended hmap)⟩
    · exact h.next.trans (by rw [update, List.length_modify])
    · refine sound_update h fun u hu => ?_
      obtain rfl := some.inj (ht.symm.trans hu)
      exact ⟨(h.sound i t ht).id, fun hnew => CallStage.noConfusion hnew,
        fun _ _ hsome => absurd (hsent.symm.trans hsome) (some_ne_none _).symm,
        fun _ hret => CallStage.noConfusion hret⟩
    · intro map' id j hmap' hj
      cases hmap'
      by_cases heq : id = t.id
      · subst heq
        rw [lookup_insert] at hj
        cases hj
        refine ⟨_, getElem?_update_self _ ht, rfl, hsent, _, rfl, le_rfl, ?_⟩
        intro k a hle ha
        obtain ⟨hlt, -⟩ := List.getElem?_eq_some_iff.mp ha
        exact absurd hlt (Nat.not_lt.mpr hle)
      · rw [lookup_insert_of_ne _ heq] at hj
        obtain ⟨u, hu, hid, hun⟩ := h.entry map id j hmap hj
        have hij : i ≠ j := by
          rintro rfl
          obtain rfl := some.inj (ht.symm.trans hu)
          exact heq hid.symm
        exact ⟨u, (List.getElem?_modify_ne _ _ hij).trans hu, hid, hun⟩
    · intro j frame k hreader
      obtain ⟨u, hu, hone, hans, hout⟩ := h.inHand j frame k hreader
      have hij : i ≠ j := by
        rintro rfl
        obtain rfl := some.inj (ht.symm.trans hu)
        obtain ⟨n, hn, -⟩ := hans
        exact some_ne_none n (hn.symm.trans hnone)
      refine ⟨u, (List.getElem?_modify_ne _ _ hij).trans hu, hone, hans, ?_⟩
      intro map' hmap' hlook
      cases hmap'
      by_cases heq : u.id = t.id
      · rw [heq, lookup_insert] at hlook
        exact hij (some.inj hlook)
      · rw [lookup_insert_of_ne _ heq] at hlook
        exact hout map hmap hlook
  next => exact h.setStage CallStage.noConfusion fun _ _ _ hok => by cases hok
  next => exact h

theorem Paired.send (h : c.Paired) : (c.send i t).Paired := by
  unfold RmpClient.send
  split
  next => exact (h.setStage CallStage.noConfusion fun _ _ _ hok => by cases hok).outbox _ _
  next => exact h.setStage CallStage.noConfusion fun _ _ _ hok => by cases hok
  next => exact h

theorem Paired.receive (h : c.Paired) (ht : c.calls[i]? = some t) : (c.receive i t).Paired := by
  unfold RmpClient.receive
  split
  next frame k _ hone =>
    refine h.setStage CallStage.noConfusion fun u frame' hu hok => ?_
    obtain rfl := some.inj (ht.symm.trans hu)
    cases hok
    exact ⟨k, hone⟩
  next =>
    split
    · exact h
    · exact h.setStage CallStage.noConfusion fun _ _ _ hok => by cases hok
  next => exact h

theorem Paired.cancel (h : c.Paired) : (c.cancel i t).Paired := by
  unfold RmpClient.cancel
  split
  next => exact h.setStage CallStage.noConfusion fun _ _ _ hok => by cases hok
  next => exact h

theorem Paired.write (h : c.Paired) (ok : Bool) : (c.write ok).Paired := by
  unfold RmpClient.write
  split
  next =>
    split
    · exact h.outbox _ _
    · exact h.outbox none c.written
  next => exact h

theorem Paired.look (h : c.Paired) {message : RmpMessage} (hreader : c.reader = .holding message) :
    (c.look message).Paired := by
  have htype := h.response message hreader
  unfold RmpClient.look
  split
  next map hmap =>
    split
    next i hi =>
      obtain ⟨t, ht, hid, hun⟩ := h.entry map _ i hmap hi
      refine ⟨h.next, fun j u hu => (h.sound j u hu).append _, ?_,
        fun _ hm => ReaderStage.noConfusion hm, ?_, opened_iff ReaderStage.noConfusion⟩
      · intro map' id j hmap' hj
        cases hmap'
        obtain ⟨hne, hlook⟩ := lookup_erase_eq_some hj
        obtain ⟨u, hu, hid', hun'⟩ := h.entry map id j hmap hlook
        exact ⟨u, hu, hid', hun'.append fun heq => hne (hid'.symm.trans heq.symm)⟩
      · intro j frame k hsending
        cases hsending
        have hmessage : message = ⟨t.id, .response, message.frame⟩ := by rw [hid, ← htype]
        refine ⟨t, ht, hun.1, ?_, ?_⟩
        · have hans := hun.answers i message.frame
          rwa [← hmessage] at hans
        · intro map' hmap' hlook
          cases hmap'
          exact (lookup_erase_eq_some hlook).1 hid
    next hnone =>
      refine ⟨h.next, fun j u hu => (h.sound j u hu).append _, ?_,
        fun _ hm => ReaderStage.noConfusion hm, fun _ _ _ hs => ReaderStage.noConfusion hs, ?_⟩
      · intro map' id j hmap' hj
        obtain ⟨u, hu, hid, hun⟩ := h.entry map' id j hmap' hj
        cases hmap.symm.trans hmap'
        refine ⟨u, hu, hid, hun.append fun heq => ?_⟩
        rw [← hid, ← heq, hnone] at hj
        cases hj
      · rw [hmap]
        exact opened_iff ReaderStage.noConfusion
  next hclosed => cases hreader.symm.trans (h.closed.mp hclosed)

theorem Paired.deliver (h : c.Paired) {frame : Frame} {k : Nat}
    (hreader : c.reader = .sending i frame k) :
    { c.update i fun t => { t with sent := some (frame, k) } with reader := .reading }.Paired := by
  obtain ⟨t, ht, hsent, hans, hout⟩ := h.inHand i frame k hreader
  refine ⟨?_, ?_, ?_, fun _ hm => ReaderStage.noConfusion hm,
    fun _ _ _ hs => ReaderStage.noConfusion hs, ?_⟩
  · exact h.next.trans (by rw [update, List.length_modify])
  · refine sound_update h fun u hu => ?_
    obtain rfl := some.inj (ht.symm.trans hu)
    have hsound := h.sound i t ht
    refine ⟨hsound.id, fun hstage => ?_, fun _ _ hsome => ?_, fun f hstage => ?_⟩
    · obtain ⟨n, hn, -⟩ := hans
      exact absurd (hn.symm.trans (hsound.fresh hstage).2) (some_ne_none n)
    · cases hsome
      exact hans
    · obtain ⟨n, hn⟩ := hsound.answered f hstage
      cases hsent.symm.trans hn
  · intro map id j hmap hj
    obtain ⟨u, hu, hid, hun⟩ := h.entry map id j hmap hj
    have hij : i ≠ j := by
      rintro rfl
      obtain rfl := some.inj (ht.symm.trans hu)
      exact hout map hmap (hid ▸ hj)
    exact ⟨u, (List.getElem?_modify_ne _ _ hij).trans hu, hid, hun⟩
  · refine ⟨fun hclosed => ?_, fun hended => ReaderStage.noConfusion hended⟩
    cases hreader.symm.trans (h.closed.mp hclosed)

theorem Paired.turn (h : c.Paired) {reader : ReaderStage} (hreader : c.reader = .reading)
    (hresponse : ∀ m, reader = .holding m → m.msgType = .response)
    (hfree : ∀ i frame k, reader ≠ .sending i frame k) (hlive : reader ≠ .ended) :
    { c with reader := reader }.Paired := by
  refine ⟨h.next, h.sound, h.entry, hresponse, fun i frame k hs => absurd hs (hfree i frame k), ?_⟩
  refine iff_of_false (fun hclosed => ?_) hlive
  cases hreader.symm.trans (h.closed.mp hclosed)

theorem Paired.onCall (h : c.Paired) {f : Call → RmpClient}
    (hf : ∀ t, c.calls[i]? = some t → (f t).Paired) : (c.onCall i f).Paired := by
  unfold RmpClient.onCall
  cases ht : c.calls[i]? with
  | none => exact h
  | some t => exact hf t ht

theorem Paired.step (h : c.Paired) (event : RmpClientEvent) : (c.step event).Paired := by
  cases event with
  | enter args => exact h.enter args
  | register i => exact h.onCall fun _ ht => h.register ht
  | send i => exact h.onCall fun _ _ => h.send
  | receive i => exact h.onCall fun _ ht => h.receive ht
  | cancel i => exact h.onCall fun _ _ => h.cancel
  | write ok => exact h.write ok
  | read message =>
    simp only [RmpClient.step]
    split
    next hreader =>
      split
      next htype =>
        refine h.turn hreader (fun m hm => ?_) (fun _ _ _ => ReaderStage.noConfusion)
          ReaderStage.noConfusion
        cases hm
        exact htype
      next => exact h
    next => exact h
  | finish =>
    simp only [RmpClient.step]
    split
    next hreader =>
      exact h.turn hreader (fun _ => ReaderStage.noConfusion)
        (fun _ _ _ => ReaderStage.noConfusion) ReaderStage.noConfusion
    next => exact h
  | look =>
    simp only [RmpClient.step]
    split
    next hreader => exact h.look hreader
    next => exact h
  | deliver =>
    simp only [RmpClient.step]
    split
    next hreader => exact h.deliver hreader
    next => exact h
  | close =>
    simp only [RmpClient.step]
    split
    next =>
      exact ⟨h.next, h.sound, fun _ _ _ hopen => PendingReplies.noConfusion hopen,
        fun _ hm => ReaderStage.noConfusion hm, fun _ _ _ hs => ReaderStage.noConfusion hs,
        iff_of_true rfl rfl⟩
    next => exact h

theorem paired_start : start.Paired where
  next := rfl
  sound _ _ ht := by cases ht
  entry _ _ _ hmap hi := by cases hmap; cases hi
  response _ hm := ReaderStage.noConfusion hm
  inHand _ _ _ hs := ReaderStage.noConfusion hs
  closed := opened_iff ReaderStage.noConfusion

def Over (c : RmpClient) : Prop := c.pending = .closed ∧ c.reader = .ended

theorem Over.onCall (h : c.Over) {f : Call → RmpClient} (hf : ∀ t, (f t).Over) :
    (c.onCall i f).Over := by
  unfold RmpClient.onCall
  cases c.calls[i]? with
  | none => exact h
  | some t => exact hf t

theorem Over.step (h : c.Over) (event : RmpClientEvent) : (c.step event).Over := by
  cases event with
  | enter args => exact h
  | register i =>
    refine h.onCall fun t => ?_
    unfold RmpClient.register
    split
    next hopen => exact PendingReplies.noConfusion (h.1.symm.trans hopen)
    next => exact h
    next => exact h
  | send i =>
    refine h.onCall fun t => ?_
    unfold RmpClient.send
    split <;> exact h
  | receive i =>
    refine h.onCall fun t => ?_
    unfold RmpClient.receive
    split
    · exact h
    · split <;> exact h
    · exact h
  | cancel i =>
    refine h.onCall fun t => ?_
    unfold RmpClient.cancel
    split <;> exact h
  | write ok =>
    simp only [RmpClient.step, RmpClient.write]
    split
    · split <;> exact h
    · exact h
  | read message | finish | look | deliver | close => simpa only [RmpClient.step, h.2] using h

theorem Paired.distinct (h : c.Paired) (hlen : c.calls.length < 2 ^ 64) {j : Nat} {u : Call}
    (ht : c.calls[i]? = some t) (hu : c.calls[j]? = some u) (hid : t.id = u.id) : i = j := by
  obtain ⟨hi, -⟩ := List.getElem?_eq_some_iff.mp ht
  obtain ⟨hj, -⟩ := List.getElem?_eq_some_iff.mp hu
  rw [(h.sound i t ht).id, (h.sound j u hu).id] at hid
  have hnat := congrArg UInt64.toNat hid
  rw [UInt64.toNat_ofNat', UInt64.toNat_ofNat', Nat.mod_eq_of_lt (by omega),
    Nat.mod_eq_of_lt (by omega)] at hnat
  exact Nat.succ.inj hnat

/-- Replies are paired with calls after every run: of any calls, the reader, the writer and a
server that sends what it likes. -/
theorem replies_paired (events : List RmpClientEvent) : (events.foldl step start).Pairs := by
  have h : (events.foldl step start).Paired :=
    List.foldlRecOn events step paired_start fun _ hc event _ => hc.step event
  refine ⟨?_, ?_, ?_, ?_⟩
  · intro i t frame ht hstage
    obtain ⟨k, hk⟩ := (h.sound i t ht).answered frame hstage
    exact ⟨k, hk, (h.sound i t ht).sent frame k hk⟩
  · intro hlen i j t u ht hu hid
    exact h.distinct hlen ht hu hid
  · intro i j t u f g k ht hu hf hg
    obtain ⟨-, -, -, hi, -⟩ := (h.sound i t ht).sent f k hf
    obtain ⟨-, -, -, hj, -⟩ := (h.sound j u hu).sent g k hg
    have hsame := congrArg Arrival.receiver (some.inj (hi.symm.trans hj))
    exact some.inj hsame
  · rintro hended later i ⟨map, id, hopen, -⟩
    have hover : (later.foldl step (events.foldl step start)).Over :=
      List.foldlRecOn later step ⟨h.closed.mpr hended, hended⟩ fun _ hc event _ => hc.step event
    exact PendingReplies.noConfusion (hover.1.symm.trans hopen)

end

/-- Two calls, answered in the other order and the second one twice. -/
example :
    ([.enter [], .enter [], .register 1, .register 0, .send 0, .send 1,
      .read ⟨2, .response, .null⟩, .look, .deliver, .read ⟨2, .response, .integer 7⟩, .look,
      .read ⟨1, .response, .integer 5⟩, .look, .deliver, .receive 0, .receive 1].foldl step
        start).calls.map Call.stage =
      [.returned (.ok (.integer 5)), .returned (.ok .null)] := rfl

end RmpClient

end Rmp

end RocketMem
