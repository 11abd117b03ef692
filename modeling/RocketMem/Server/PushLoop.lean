import RocketMem.Framework.Precedence
import RocketMem.Server.Connection
import RocketMem.Server.Subscriptions

namespace RocketMem

open List

/-- What a subscription call says of one name: the number of the command, the number of the
acknowledgement among all of the connection, and what it tells. Leaving no name at all is
acknowledged without a name. -/
structure Acknowledgement where
  call : Nat
  serial : Nat
  kind : SubscriptionKind
  joins : Bool
  name : Option Bytes
  count : Nat
  deriving DecidableEq

namespace Acknowledgement

def isOf (a : Acknowledgement) (kind : SubscriptionKind) (name : Bytes) : Bool :=
  a.kind = kind ∧ a.name = some name

def covers (a : Acknowledgement) (channel : Bytes) : Bool :=
  match a.kind with
  | .channel => a.name = some channel
  | .pattern => a.name.any fun pattern => globMatch pattern channel

end Acknowledgement

/-- What a connection writes: the reply to a command, an acknowledgement, of which the first of a
call is its reply, or a message, through the registration that `via` acknowledges. -/
inductive Output where
  | reply (call : Nat) (frame : Frame)
  | ack (a : Acknowledgement)
  | message (via : Acknowledgement) (channel message : Bytes)

namespace Output

def call : Output → Option Nat
  | .reply n _ => some n
  | .ack a => some a.call
  | .message _ _ _ => none

/-- What has to be written first, where `made` are the acknowledgements of all calls: before an
answer those of every earlier call, before a message on a channel that of its registration. -/
inductive Needs (made : List Acknowledgement) : Output → Output → Prop
  | earlier {o : Output} {n : Nat} {a : Acknowledgement} (ho : o.call = some n) (ha : a ∈ made)
      (hlt : a.call < n) : Needs made o (.ack a)
  | own {via : Acknowledgement} (channel text : Bytes) (hkind : via.kind = .channel) :
      Needs made (.message via channel text) (.ack via)

end Output

/-- Where `handle_connection` stands: about to take a frame, in one of the loops of a subscription
call, with a reply to write, or behind it. -/
inductive PushStage where
  | waiting
  | subscribing (kind : SubscriptionKind) (names : List Bytes)
  | unsubscribing (kind : SubscriptionKind) (names : List Bytes)
  | acknowledging
  | replying (o : Output)
  | answered

namespace PushStage

def reply : PushStage → List Output
  | .replying o => [o]
  | _ => []

def collects : PushStage → Bool
  | .subscribing _ _ | .unsubscribing _ _ | .acknowledging => true
  | _ => false

theorem reply_of_collects {stage : PushStage} (h : stage.collects = true) : stage.reply = [] := by
  cases stage with
  | replying o => cases h
  | _ => rfl

end PushStage

/-- A RESP connection and its push channel `tx`. `held` are the registrations under which messages
are sent to it, each by its acknowledgement; `replies` are the acknowledgements of the call under
way that have not left it, `made` all there ever were, and `calls` counts the frames taken. -/
structure PushLoop where
  tx : Nat
  stage : PushStage
  pending : Option Frame
  session : Session
  calls : Nat
  held : List Acknowledgement
  replies : List Acknowledgement
  made : List Acknowledgement
  channel : List Output
  written : List Output

inductive PushEvent where
  /-- The loop takes the frame pulled ahead, or else this one. `answer` is the reply it gets from
  any other place than the arms of the subscription commands. -/
  | take (frame : Frame) (answer : Option Frame)
  /-- The call goes on: the next name, the next acknowledgement to push, the reply. -/
  | proceed
  /-- A blocking command that waits pulls the next frame ahead. -/
  | stash (frame : Frame)
  | peek (next : Option Frame)
  | drain
  /-- A publisher sends a message through a registration. -/
  | send (via : Acknowledgement) (channel message : Bytes)
  /-- A connection with the same number leaves a name. -/
  | revoke (kind : SubscriptionKind) (name : Bytes)

namespace PushLoop

def start (tx : Nat) : PushLoop := ⟨tx, .waiting, none, .new, 0, [], [], [], [], []⟩

def next (c : PushLoop) (kind : SubscriptionKind) (joins : Bool) (name : Option Bytes)
    (count : Nat) : Acknowledgement :=
  ⟨c.calls, c.made.length, kind, joins, name, count⟩

def acknowledge (c : PushLoop) (a : Acknowledgement) : PushLoop :=
  { c with replies := c.replies ++ [a], made := c.made ++ [a] }

/-- A name of a subscription: the session is told, then the registry. -/
def join (c : PushLoop) (kind : SubscriptionKind) (name : Bytes) (names : List Bytes) : PushLoop :=
  let session := (c.session.setNames (insert name (c.session.names kind)) kind).recount
  let a := c.next kind true (some name) session.subscriptionCount
  { c.acknowledge a with
    stage := .subscribing kind names
    session := session
    held := c.held ++ [a] }

def leave (c : PushLoop) (kind : SubscriptionKind) (name : Bytes) (names : List Bytes) : PushLoop :=
  let session := (c.session.setNames ((c.session.names kind).erase name) kind).recount
  let a := c.next kind false (some name) session.subscriptionCount
  { c.acknowledge a with
    stage := .unsubscribing kind names
    session := session
    held := c.held.filter fun a => !a.isOf kind name }

def proceed (c : PushLoop) : PushLoop :=
  match c.stage with
  | .subscribing kind (name :: names) => c.join kind name names
  | .subscribing _ [] => { c with stage := .acknowledging }
  | .unsubscribing kind (name :: names) => c.leave kind name names
  | .unsubscribing kind [] =>
    if c.replies = [] then { c.acknowledge (c.next kind false none 0) with stage := .acknowledging }
    else { c with stage := .acknowledging }
  | .acknowledging =>
    match c.replies with
    | first :: extra :: rest =>
      { c with replies := first :: rest, channel := c.channel ++ [.ack extra] }
    | [first] => { c with stage := .replying (.ack first), replies := [] }
    | [] => c
  | .replying o => { c with stage := .answered, written := c.written ++ [o] }
  | .waiting | .answered => c

def take (c : PushLoop) (frame : Frame) (answer : Option Frame) : PushLoop :=
  let taken := { c with pending := none, calls := c.calls + 1 }
  match answer with
  | some r => { taken with stage := .replying (.reply taken.calls r) }
  | none =>
    let opened := { taken with session := (c.session.ensurePushChannel c.tx).2 }
    match PubSubTurn.ofFrame c.session (c.pending.getD frame) with
    | .subscribe kind (name :: names) => { opened with stage := .subscribing kind (name :: names) }
    | .unsubscribe kind names => { opened with stage := .unsubscribing kind names }
    | _ => c

def step (c : PushLoop) : PushEvent → PushLoop
  | .take frame answer =>
    match c.stage with
    | .waiting => c.take frame answer
    | _ => c
  | .proceed => c.proceed
  | .stash frame =>
    match c.stage, c.pending with
    | .replying _, none => { c with pending := some frame }
    | _, _ => c
  | .peek next =>
    match c.stage with
    | .answered => { c with stage := .waiting, pending := next.or c.pending }
    | _ => c
  | .drain =>
    match c.stage, c.pending, c.channel with
    | .waiting, none, o :: rest => { c with channel := rest, written := c.written ++ [o] }
    | _, _, _ => c
  | .send via channel message =>
    if via ∈ c.held ∧ via.covers channel then
      { c with channel := c.channel ++ [.message via channel message] }
    else c
  | .revoke kind name => { c with held := c.held.filter fun a => !a.isOf kind name }

/-- Whatever has been written came after all that has to be written first. -/
def Acknowledges (c : PushLoop) : Prop := Preceded (Output.Needs c.made) c.written

/-- No frame is taken while an acknowledgement waits in the push channel, and no message is sent
through the registration of a channel whose acknowledgement, not the first of its call, has yet to
be put there. -/
def Patient (c : PushLoop) : PushEvent → Prop
  | .take _ _ => ∀ a, .ack a ∉ c.channel
  | .send via _ _ => via.kind = .channel → via ∉ c.replies.tail
  | _ => True

def settled (c : PushLoop) : List Output :=
  c.written ++ (c.stage.reply ++ c.replies.head?.toList.map .ack)

/-- What has been written and what is bound to be, in this order if no frame is taken. -/
def outlook (c : PushLoop) : List Output := c.settled ++ c.channel

/-- What holds between events: everything is in the order it has to be in, and every acknowledgement
has its place there or waits behind the first of its call. -/
structure Foreseen (c : PushLoop) : Prop where
  order : Preceded (Output.Needs c.made) c.outlook
  placed : ∀ a ∈ c.made, .ack a ∈ c.outlook ∨ a ∈ c.replies.tail
  current : ∀ a, .ack a ∈ c.channel → a.call = c.calls
  collected : ∀ a ∈ c.replies, a.call = c.calls
  numbered : ∀ o ∈ c.outlook, ∀ n, o.call = some n → n ≤ c.calls
  held : ∀ a ∈ c.held, a ∈ c.made
  idle : c.stage.collects = false → c.replies = []

variable {c c' : PushLoop} {a : Acknowledgement}

theorem Foreseen.start (tx : Nat) : (start tx).Foreseen := by
  have hnone : (PushLoop.start tx).outlook = [] := rfl
  constructor
  case order =>
    rw [hnone]
    exact Preceded.nil
  case numbered =>
    rw [hnone]
    simp
  all_goals simp [PushLoop.start]

theorem Foreseen.acknowledges (h : c.Foreseen) : c.Acknowledges := by
  have horder := h.order
  unfold outlook settled at horder
  exact horder.of_append.of_append

theorem Foreseen.earlier (h : c.Foreseen) (ha : a ∈ c.made)
    (hlt : a.call < c.calls) : .ack a ∈ c.settled := by
  rcases h.placed a ha with hplaced | htail
  · rcases mem_append.mp hplaced with hsettled | hchannel
    · exact hsettled
    · have hcurrent := h.current a hchannel
      omega
  · have hcall := h.collected a (mem_of_mem_tail htail)
    omega

theorem Foreseen.order_made (h : c.Foreseen) (ha : a.call = c.calls) :
    Preceded (Output.Needs (c.made ++ [a])) c.outlook := by
  apply h.order.mono
  intro o ho p hp
  cases hp with
  | earlier hcall hmade hlt =>
    have hle := h.numbered o ho _ hcall
    rcases mem_append.mp hmade with hmade | hlast
    · exact .earlier hcall hmade hlt
    · rw [mem_singleton.mp hlast, ha] at hlt
      omega
  | own channel message hkind => exact .own channel message hkind

theorem Foreseen.congr (h : c.Foreseen) {stage : PushStage} {pending : Option Frame}
    {held : List Acknowledgement} {channel written : List Output}
    (houtlook : outlook { c with
      stage := stage, pending := pending, held := held, channel := channel, written := written } =
      c.outlook)
    (hchannel : channel ⊆ c.channel) (hheld : held ⊆ c.held)
    (hidle : stage.collects = false → c.replies = []) : Foreseen { c with
      stage := stage, pending := pending, held := held, channel := channel, written := written } :=
  ⟨houtlook ▸ h.order, houtlook ▸ h.placed, fun a ha => h.current a (hchannel ha), h.collected,
    houtlook ▸ h.numbered, fun a ha => h.held a (hheld ha), hidle⟩

theorem Foreseen.enqueue (h : c.Foreseen) {o : Output} {replies : List Acknowledgement}
    (houtlook : outlook { c with replies := replies, channel := c.channel ++ [o] } =
      c.outlook ++ [o])
    (hneeds : ∀ p, Output.Needs c.made o p → p ∈ c.outlook)
    (hcall : ∀ n, o.call = some n → n = c.calls)
    (htail : ∀ a ∈ c.replies.tail, .ack a = o ∨ a ∈ replies.tail)
    (hreplies : replies ⊆ c.replies) :
    Foreseen { c with replies := replies, channel := c.channel ++ [o] } := by
  constructor
  case order => exact houtlook ▸ h.order.concat hneeds
  case placed =>
    intro a ha
    rw [houtlook]
    rcases h.placed a ha with hplaced | hlater
    · exact .inl (mem_append_left _ hplaced)
    · exact (htail a hlater).imp_left fun ho => by simp [ho]
  case current =>
    intro a ha
    rcases mem_append.mp ha with ha | ha
    · exact h.current a ha
    · exact hcall _ (mem_singleton.mp ha ▸ rfl)
  case collected => exact fun a ha => h.collected a (hreplies ha)
  case numbered =>
    rw [houtlook]
    intro o' ho n hn
    rcases mem_append.mp ho with ho | ho
    · exact h.numbered o' ho n hn
    · exact (hcall n (mem_singleton.mp ho ▸ hn)).le
  case held => exact h.held
  case idle =>
    intro hidle
    exact subset_nil.mp (h.idle hidle ▸ hreplies)

theorem order_of_settle {o : Output} {n : Nat} (hcall : o.call = some n)
    (houtlook : c'.outlook = c.settled ++ o :: c.channel)
    (horder : Preceded (Output.Needs c'.made) c.outlook)
    (hneeds : ∀ a ∈ c'.made, a.call < n → .ack a ∈ c.settled) :
    Preceded (Output.Needs c'.made) c'.outlook := by
  rw [houtlook]
  apply horder.insert
  intro p hp
  cases hp with
  | earlier hcall' hmade hlt =>
    obtain rfl := Option.some.inj (hcall.symm.trans hcall')
    exact hneeds _ hmade hlt
  | own channel text hkind => cases hcall

theorem mem_outlook_of_settle {o p : Output} (houtlook : c'.outlook = c.settled ++ o :: c.channel) :
    p ∈ c'.outlook ↔ p = o ∨ p ∈ c.outlook := by
  rw [houtlook, outlook, mem_append, mem_append, mem_cons]
  tauto

theorem Foreseen.acknowledge (h : c.Foreseen) (hcollects : c.stage.collects = true)
    (ha : a.call = c.calls) {stage : PushStage}
    (hstage : stage.collects = true) (session : Session) {held : List Acknowledgement}
    (hheld : ∀ b ∈ held, b ∈ c.held ∨ b = a) :
    Foreseen { c.acknowledge a with stage := stage, session := session, held := held } := by
  have hnew := PushStage.reply_of_collects hstage
  have hold := PushStage.reply_of_collects hcollects
  have hcurrent : ∀ b ∈ c.replies ++ [a], b.call = c.calls := by
    intro b hb
    rcases mem_append.mp hb with hb | hb
    · exact h.collected b hb
    · rw [mem_singleton.mp hb, ha]
  have hheld' : ∀ b ∈ held, b ∈ c.made ++ [a] := by
    intro b hb
    rcases hheld b hb with hb | rfl
    · exact mem_append_left _ (h.held b hb)
    · simp
  have hidle : stage.collects = false → c.replies ++ [a] = [] := by
    intro hno
    rw [hstage] at hno
    cases hno
  have hmade {b : Acknowledgement} (hb : b ∈ c.made ++ [a]) (hlt : b.call < c.calls) :
      .ack b ∈ c.settled := by
    rcases mem_append.mp hb with hb | hb
    · exact h.earlier hb hlt
    · rw [mem_singleton.mp hb, ha] at hlt
      omega
  cases hreplies : c.replies with
  | nil =>
    -- the first of its call is the reply
    have houtlook : outlook
        { c.acknowledge a with stage := stage, session := session, held := held } =
        c.settled ++ .ack a :: c.channel := by
      simp [outlook, settled, PushLoop.acknowledge, hnew, hold, hreplies]
    refine ⟨order_of_settle rfl houtlook (h.order_made ha) fun b hb hlt => hmade hb (ha ▸ hlt), ?_,
      h.current, hcurrent, ?_, hheld', hidle⟩
    · intro b hb
      left
      rw [mem_outlook_of_settle houtlook]
      rcases mem_append.mp hb with hb | hb
      · have hplaced := h.placed b hb
        rw [hreplies] at hplaced
        exact .inr (hplaced.resolve_right not_mem_nil)
      · exact .inl (congrArg _ (mem_singleton.mp hb))
    · intro o ho n hn
      rcases (mem_outlook_of_settle houtlook).mp ho with rfl | ho
      · exact (Option.some.inj hn ▸ ha.le)
      · exact h.numbered o ho n hn
  | cons first rest =>
    have houtlook : outlook
        { c.acknowledge a with stage := stage, session := session, held := held } =
        c.outlook := by
      simp [outlook, settled, PushLoop.acknowledge, hnew, hold, hreplies]
    refine ⟨houtlook ▸ h.order_made ha, ?_, h.current, hcurrent, houtlook ▸ h.numbered, hheld',
      hidle⟩
    intro b hb
    rw [houtlook]
    have htail : (c.replies ++ [a]).tail = rest ++ [a] := by rw [hreplies]; rfl
    rcases mem_append.mp hb with hb | hb
    · rcases h.placed b hb with hplaced | hrest
      · exact .inl hplaced
      · rw [hreplies] at hrest
        exact .inr (htail ▸ mem_append_left _ hrest)
    · exact .inr (htail ▸ mem_append_right _ hb)

theorem Foreseen.join (h : c.Foreseen) {kind : SubscriptionKind} {name : Bytes}
    {names : List Bytes} (hcollects : c.stage.collects = true) :
    (c.join kind name names).Foreseen := by
  apply h.acknowledge hcollects
  · rfl
  · rfl
  · intro b hb
    rcases mem_append.mp hb with hb | hb
    · exact .inl hb
    · exact .inr (mem_singleton.mp hb)

theorem Foreseen.leave (h : c.Foreseen) {kind : SubscriptionKind} {name : Bytes}
    {names : List Bytes} (hcollects : c.stage.collects = true) :
    (c.leave kind name names).Foreseen := by
  apply h.acknowledge hcollects
  · rfl
  · rfl
  · intro b hb
    exact .inl (mem_of_mem_filter hb)

theorem Foreseen.stage (h : c.Foreseen) {stage : PushStage} (hreply : stage.reply = c.stage.reply)
    (hidle : stage.collects = false → c.replies = []) : Foreseen { c with stage := stage } := by
  exact h.congr (by simp only [outlook, settled, hreply]) (fun _ => id) (fun _ => id) hidle

theorem Foreseen.push (h : c.Foreseen) {first extra : Acknowledgement}
    {rest : List Acknowledgement} (hreplies : c.replies = first :: extra :: rest) :
    Foreseen { c with replies := first :: rest, channel := c.channel ++ [.ack extra] } := by
  have hextra : extra.call = c.calls := h.collected extra (by simp [hreplies])
  apply h.enqueue
  · simp [outlook, settled, hreplies]
  · intro p hp
    cases hp with
    | earlier hcall hmade hlt =>
      cases hcall
      exact mem_append_left _ (h.earlier hmade (hextra ▸ hlt))
  · intro n hn
    cases hn
    exact hextra
  · intro a ha
    rw [hreplies] at ha
    exact (mem_cons.mp ha).imp_left (congrArg _)
  · rw [hreplies]
    exact ((sublist_cons_self extra rest).cons_cons first).subset

theorem Foreseen.proceed (h : c.Foreseen) : c.proceed.Foreseen := by
  unfold PushLoop.proceed
  split
  · next kind name names hstage => exact h.join (by rw [hstage]; rfl)
  · next hstage => exact h.stage (by rw [hstage]; rfl) nofun
  · next kind name names hstage => exact h.leave (by rw [hstage]; rfl)
  · next kind hstage =>
    split
    · exact h.acknowledge (by rw [hstage]; rfl) rfl rfl _ fun b hb => .inl hb
    · exact h.stage (by rw [hstage]; rfl) nofun
  · next hstage =>
    split
    · next first extra rest hreplies => exact h.push hreplies
    · next first hreplies =>
      have houtlook : outlook { c with stage := .replying (.ack first), replies := [] } =
          c.outlook := by
        simp [outlook, settled, hstage, hreplies, PushStage.reply]
      refine ⟨houtlook ▸ h.order, fun a ha => ?_, h.current, by simp, houtlook ▸ h.numbered, h.held,
        fun _ => rfl⟩
      rw [houtlook]
      have hplaced := h.placed a ha
      rwa [hreplies] at hplaced
    · exact h
  · next o hstage =>
    have hreplies : c.replies = [] := h.idle (by rw [hstage]; rfl)
    apply h.congr
    · simp [outlook, settled, hstage, hreplies, PushStage.reply]
    · exact fun _ => id
    · exact fun _ => id
    · exact fun _ => hreplies
  · exact h
  · exact h

theorem Foreseen.take (h : c.Foreseen) (hstage : c.stage = .waiting)
    (hpatient : ∀ a, .ack a ∉ c.channel) (frame : Frame) (answer : Option Frame) :
    (c.take frame answer).Foreseen := by
  have hreplies : c.replies = [] := h.idle (by rw [hstage]; rfl)
  have hreply : c.stage.reply = [] := by rw [hstage]; rfl
  have hmade {a : Acknowledgement} (ha : a ∈ c.made) : .ack a ∈ c.settled := by
    have hplaced := h.placed a ha
    rw [hreplies] at hplaced
    have houtlook := hplaced.resolve_right not_mem_nil
    exact (mem_append.mp houtlook).resolve_right (hpatient a)
  have hcalled (session : Session) {stage : PushStage} (hcollects : stage.collects = true) :
      Foreseen { c with
        pending := none, calls := c.calls + 1, session := session, stage := stage } := by
    have houtlook : outlook { c with
        pending := none, calls := c.calls + 1, session := session, stage := stage } =
        c.outlook := by
      simp [outlook, settled, hreply, PushStage.reply_of_collects hcollects]
    refine ⟨houtlook ▸ h.order, houtlook ▸ h.placed, fun a ha => (hpatient a ha).elim, ?_, ?_,
      h.held, fun _ => hreplies⟩
    · simp [hreplies]
    · rw [houtlook]
      intro o ho n hn
      exact (h.numbered o ho n hn).trans (Nat.le_succ _)
  unfold PushLoop.take
  cases answer with
  | some r =>
    have houtlook : outlook { c with
        pending := none, calls := c.calls + 1, stage := .replying (.reply (c.calls + 1) r) } =
        c.settled ++ .reply (c.calls + 1) r :: c.channel := by
      simp [outlook, settled, hstage, hreplies, PushStage.reply]
    refine ⟨order_of_settle rfl houtlook h.order fun a ha _ => hmade ha, ?_,
      fun a ha => (hpatient a ha).elim, by simp [hreplies], ?_, h.held, fun _ => hreplies⟩
    · intro a ha
      left
      exact (mem_outlook_of_settle houtlook).mpr (.inr (mem_append_left _ (hmade ha)))
    · intro o ho n hn
      rcases (mem_outlook_of_settle houtlook).mp ho with rfl | ho
      · cases hn
        exact le_rfl
      · exact (h.numbered o ho n hn).trans (Nat.le_succ _)
  | none =>
    dsimp only
    split
    · exact hcalled _ rfl
    · exact hcalled _ rfl
    · exact h

theorem Foreseen.drain (h : c.Foreseen) : (c.step .drain).Foreseen := by
  unfold step
  dsimp only
  split
  · next o rest hstage hpending hchannel =>
    have hreplies : c.replies = [] := h.idle (by rw [hstage]; rfl)
    apply h.congr
    · simp [outlook, settled, hstage, hreplies, hchannel, PushStage.reply]
    · rw [hchannel]
      exact subset_cons_self o rest
    · exact fun _ => id
    · exact fun _ => hreplies
  · exact h

theorem Foreseen.send (h : c.Foreseen) {via : Acknowledgement} (hheld : via ∈ c.held)
    (hpatient : via.kind = .channel → via ∉ c.replies.tail) (channel text : Bytes) :
    Foreseen { c with channel := c.channel ++ [.message via channel text] } := by
  apply h.enqueue
  · simp [outlook, settled]
  · intro p hp
    cases hp with
    | earlier hcall => cases hcall
    | own _ _ hkind => exact (h.placed via (h.held via hheld)).resolve_right (hpatient hkind)
  · exact fun n hn => nomatch hn
  · exact fun a ha => .inr ha
  · exact fun _ => id

theorem Foreseen.step (h : c.Foreseen) (e : PushEvent) (he : c.Patient e) :
    (c.step e).Foreseen := by
  cases e with
  | take frame answer =>
    unfold PushLoop.step
    dsimp only
    split
    · next hstage => exact h.take hstage he frame answer
    · exact h
  | proceed => exact h.proceed
  | stash frame =>
    unfold PushLoop.step
    dsimp only
    split
    · exact h.congr rfl (fun _ => id) (fun _ => id) h.idle
    · exact h
  | peek next =>
    unfold PushLoop.step
    dsimp only
    split
    · next hstage =>
      have hreplies : c.replies = [] := h.idle (by rw [hstage]; rfl)
      apply h.congr
      · simp [outlook, settled, hstage, PushStage.reply]
      · exact fun _ => id
      · exact fun _ => id
      · exact fun _ => hreplies
    · exact h
  | drain => exact h.drain
  | send via channel text =>
    unfold PushLoop.step
    dsimp only
    split
    · next hvia => exact h.send hvia.1 he channel text
    · exact h
  | revoke kind name =>
    exact h.congr rfl (fun _ => id) (filter_subset_self _) h.idle

end PushLoop

theorem runsTo_proceed {permits : PushLoop → PushEvent → Prop} (hgo : ∀ c, permits c .proceed)
    {tx : Nat} {c : PushLoop} (h : RunsTo PushLoop.step permits (.start tx) c) (n : Nat) :
    RunsTo PushLoop.step permits (.start tx) (PushLoop.proceed^[n] c) := by
  induction n with
  | zero => exact h
  | succ n ih =>
    rw [Function.iterate_succ_apply']
    exact ih.next .proceed (hgo _)

def subscribeBoth : Frame := .command [txt "SUBSCRIBE", txt "a", txt "b"]

def firstAck : Acknowledgement := ⟨1, 0, .channel, true, some (txt "a"), 1⟩

def secondAck : Acknowledgement := ⟨1, 1, .channel, true, some (txt "b"), 2⟩

namespace PushLoop

def bothTaken : PushLoop := (start 0).step (.take subscribeBoth none)

def bothAnswered : PushLoop := PushLoop.proceed^[6] bothTaken

theorem bothTaken_runs : RunsTo step Patient (start 0) bothTaken := by
  have hstart : RunsTo step Patient (start 0) (start 0) := .start
  exact hstart.next (.take subscribeBoth none) fun _ => not_mem_nil

theorem bothAnswered_runs : RunsTo step Patient (start 0) bothAnswered :=
  runsTo_proceed (fun _ => trivial) bothTaken_runs 6

theorem not_acknowledges {c : PushLoop} {first second : Output} {a : Acknowledgement}
    (hwritten : c.written = [first, second]) (hneeds : second.Needs c.made (.ack a))
    (hne : .ack a ≠ first) : ¬ c.Acknowledges := by
  intro h
  have hmem : .ack a ∈ [first] := h [first] second [] hwritten _ hneeds
  exact hne (mem_singleton.mp hmem)

end PushLoop

/-- If no frame is taken while an acknowledgement waits in the push channel, and no message is sent
through a registration before its acknowledgement, everything is written in order. -/
theorem acknowledgements_in_order (tx : Nat) {c : PushLoop}
    (h : RunsTo PushLoop.step PushLoop.Patient (.start tx) c) : c.Acknowledges := by
  have hforeseen : c.Foreseen := h.invariant (.start tx) fun _ e he hc => hc.step e he
  exact hforeseen.acknowledges

theorem acknowledgements_in_order_both :
    ∃ c : PushLoop, RunsTo PushLoop.step PushLoop.Patient (.start 0) c ∧ c.Acknowledges ∧
      c.written = [.ack firstAck, .ack secondAck, .message secondAck (txt "b") (txt "hi")] := by
  have hanswered := PushLoop.bothAnswered_runs
  have hpeeked := hanswered.next (.peek none) trivial
  have hdrained := hpeeked.next .drain trivial
  have hsent := hdrained.next (.send secondAck (txt "b") (txt "hi")) fun _ => not_mem_nil
  have hdelivered := hsent.next .drain trivial
  exact ⟨_, hdelivered, acknowledgements_in_order 0 hdelivered, rfl⟩

/-- A pipelined command is answered before the second acknowledgement is written, and a message
overtakes the acknowledgement of its channel. -/
theorem acknowledgements_overtaken :
    (∃ c : PushLoop, RunsTo PushLoop.step (fun _ _ => True) (.start 0) c ∧
      c.written = [.ack firstAck, .reply 2 pongReply] ∧ c.channel = [.ack secondAck] ∧
      ¬ c.Acknowledges) ∧
    ∃ c : PushLoop, RunsTo PushLoop.step (fun _ _ => True) (.start 0) c ∧
      c.written = [.ack firstAck, .message secondAck (txt "b") (txt "hi")] ∧
      c.channel = [.ack secondAck] ∧ ¬ c.Acknowledges := by
  have hne : Output.ack secondAck ≠ .ack firstAck := by
    intro h
    have hack : secondAck = firstAck := Output.ack.inj h
    exact absurd hack (by decide)
  constructor
  · have hanswered : RunsTo PushLoop.step (fun _ _ => True) (.start 0) PushLoop.bothAnswered :=
      PushLoop.bothAnswered_runs.mono fun _ _ _ => trivial
    have hpulled := hanswered.next (.peek (some pingFrame)) trivial
    have htaken := hpulled.next (.take pingFrame (some pongReply)) trivial
    have hwritten := htaken.next .proceed trivial
    refine ⟨_, hwritten, rfl, rfl, PushLoop.not_acknowledges rfl (.earlier rfl ?_ ?_) hne⟩
    · exact mem_cons_of_mem _ (mem_singleton.mpr rfl)
    · decide
  · have htaken : RunsTo PushLoop.step (fun _ _ => True) (.start 0) PushLoop.bothTaken :=
      PushLoop.bothTaken_runs.mono fun _ _ _ => trivial
    have hregistered := runsTo_proceed (fun _ => trivial) htaken 2
    have hsent := hregistered.next (.send secondAck (txt "b") (txt "hi")) trivial
    have hanswered := runsTo_proceed (fun _ => trivial) hsent 4
    have hflushed := hanswered.next (.peek none) trivial
    have hdrained := hflushed.next .drain trivial
    exact ⟨_, hdrained, rfl, rfl, PushLoop.not_acknowledges rfl (.own _ _ rfl) hne⟩

end RocketMem
