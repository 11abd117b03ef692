import RocketMem.Framework.Transition
import RocketMem.Server.PubSub

namespace RocketMem

open List Option Function List.Sublist

inductive Listener where
  | resp
  | respTls
  | rmp
  | rmpTls
  deriving DecidableEq, Repr

namespace Listener

def isTls : Listener → Bool
  | .resp | .rmp => false
  | .respTls | .rmpTls => true

def session : Listener → Session
  | .resp | .respTls => .new
  | .rmp | .rmpTls => .newForRmp

end Listener

/-- A connection that has been accepted. `serving` is false during its TLS handshake; `receiving`
turns false when the receiver of its pushed messages is dropped. -/
structure Client where
  clientId : UInt64
  serving : Bool
  receiving : Bool
  session : Session

/-- The connections of one server, by order of acceptance. A connection's push channel goes by the
number of the connection. -/
structure Clients where
  nextClientId : Listener → UInt64
  accepted : Nat
  clients : Nat → Option Client
  registry : PubSubRegistry

inductive ClientEvent where
  | accept (listener : Listener)
  | handshake (h : Nat) (ok : Bool)
  /-- A frame comes through to the interceptions of the gated path, sent directly or run by
  `EXEC`. -/
  | command (h : Nat) (frame : Frame)
  | replicated (channel message : Bytes)
  | hangUp (h : Nat)
  | close (h : Nat)

namespace Clients

def start : Clients := ⟨fun _ => 1, 0, fun _ => none, .empty⟩

def alive (w : Clients) (h : Nat) : Bool := (w.clients h).any Client.receiving

def set (w : Clients) (h : Nat) (c : Option Client) : Clients :=
  { w with clients := update w.clients h c }

def served (w : Clients) (h : Nat) : Option Client := (w.clients h).filter Client.serving

def accept (w : Clients) (l : Listener) : Clients :=
  { w with
    nextClientId := update w.nextClientId l (w.nextClientId l + 1)
    accepted := w.accepted + 1
    clients := update w.clients w.accepted (some ⟨w.nextClientId l, !l.isTls, true, l.session⟩) }

def handshake (w : Clients) (h : Nat) (ok : Bool) : Clients :=
  match (w.clients h).filter fun c => !c.serving with
  | none => w
  | some c => w.set h (if ok then some { c with serving := true } else none)

def command (w : Clients) (h : Nat) (frame : Frame) : Clients :=
  match w.served h with
  | none => w
  | some c =>
    let o := interceptForPubsub c.clientId w.alive h c.session w.registry frame
    { w.set h (some { c with session := o.session }) with registry := o.registry }

def close (w : Clients) (h : Nat) : Clients :=
  match w.served h with
  | none => w
  | some c => { w.set h none with registry := w.registry.removeAll c.clientId }

def step (w : Clients) : ClientEvent → Clients
  | .accept l => w.accept l
  | .handshake h ok => w.handshake h ok
  | .command h frame => w.command h frame
  | .replicated channel message =>
    { w with registry := (w.registry.publish w.alive channel message).registry }
  | .hangUp h => w.set h ((w.clients h).map fun c => { c with receiving := false })
  | .close h => w.close h

def Unsubscribes (c : Client) (frame : Frame) (kind : SubscriptionKind) (name : Bytes) : Prop :=
  ∃ raw args, frame = .array (.bulk raw :: args) ∧
    upperName raw = some (asciiUpper kind.unsubscribeWord) ∧
    name ∈ unsubscribeTargets kind c.session args

def Leaves (w : Clients) (h : Nat) (kind : SubscriptionKind) (name : Bytes) : ClientEvent → Prop
  | .command g frame => g = h ∧ ∃ c, w.served h = some c ∧ Unsubscribes c frame kind name
  | .close g => g = h
  | _ => False

end Clients

def PubSubRegistry.held (r : PubSubRegistry) (kind : SubscriptionKind) (name : Bytes) (h : Nat) :
    List Subscriber :=
  (r.subscribers kind name).filter fun s => s.tx = h

namespace Clients

/-- No registration of a connection that receives its messages disappears, unless the connection
itself leaves the name. -/
def KeepsSubscriptions (w : Clients) (e : ClientEvent) : Prop :=
  ∀ h kind name, w.alive h = true → ¬ w.Leaves h kind name e →
    (w.registry.held kind name h).Sublist ((w.step e).registry.held kind name h)

def Distinct (w : Clients) : ClientEvent → Prop
  | .accept l => ∀ h c, w.clients h = some c → c.clientId ≠ w.nextClientId l
  | _ => True

end Clients

section

variable {kind k : SubscriptionKind} {name : Bytes} {h : Nat} {r : PubSubRegistry} {s : Subscriber}

theorem held_register (r : PubSubRegistry) (n : Bytes) (clientId : UInt64) (tx : Nat) :
    (r.held kind name h).Sublist ((r.register k n clientId tx).2.held kind name h) := by
  unfold PubSubRegistry.held
  rw [r.subscribers_register]
  split
  · next heq =>
    rw [heq.1, heq.2]
    exact (sublist_append_left _ _).filter _
  · exact refl _

theorem held_of_filter {r r' : PubSubRegistry} {p : Subscriber → Bool}
    (hr : r'.subscribers kind name = (r.subscribers kind name).filter p)
    (hp : ∀ s ∈ r.subscribers kind name, s.tx = h → p s = true) :
    (r.held kind name h).Sublist (r'.held kind name h) := by
  unfold PubSubRegistry.held
  rw [hr, List.filter_filter]
  have hsame : (r.subscribers kind name).filter (fun s => decide (s.tx = h)) =
      (r.subscribers kind name).filter fun s => decide (s.tx = h) && p s := by
    refine filter_congr fun s hs => ?_
    by_cases htx : s.tx = h
    · rw [hp s hs htx, Bool.and_true]
    · simp [htx]
  exact hsame ▸ refl _

theorem held_unregister (r : PubSubRegistry) (n : Bytes) (clientId : UInt64)
    (hother : kind = k → name = n → ∀ s ∈ r.subscribers kind name, s.tx = h → s.clientId ≠ clientId) :
    (r.held kind name h).Sublist ((r.unregister k n clientId).2.held kind name h) := by
  by_cases heq : kind = k ∧ name = n
  · refine held_of_filter (p := fun s => s.clientId ≠ clientId) ?_ fun s hs htx =>
      decide_eq_true (hother heq.1 heq.2 s hs htx)
    rw [r.subscribers_unregister, if_pos heq, heq.1, heq.2]
  · unfold PubSubRegistry.held
    rw [r.subscribers_unregister, if_neg heq]

theorem mem_of_mem_unregister {n : Bytes}
    (hs : s ∈ (r.unregister k n clientId).2.subscribers kind name) :
    s ∈ r.subscribers kind name := by
  rw [r.subscribers_unregister] at hs
  split at hs
  · next heq =>
    rw [heq.1, heq.2]
    exact mem_of_mem_filter hs
  · exact hs

theorem mem_of_mem_register {n : Bytes} {tx : Nat}
    (hs : s ∈ (r.register k n clientId tx).2.subscribers kind name) :
    s ∈ r.subscribers kind name ∨ s = ⟨clientId, tx⟩ := by
  rw [r.subscribers_register] at hs
  split at hs
  · next heq =>
    rw [heq.1, heq.2]
    exact (mem_append.mp hs).imp_right mem_singleton.mp
  · exact .inl hs

variable {clientId : UInt64}

theorem held_subscribeAll (k : SubscriptionKind) (tx : Nat) (names : List Bytes) (session : Session)
    (r : PubSubRegistry) :
    (r.held kind name h).Sublist
      ((subscribeAll clientId k tx names session r).2.2.held kind name h) := by
  induction names generalizing session r with
  | nil => exact refl _
  | cons n names ih => exact (held_register r n clientId tx).trans (ih _ _)

theorem mem_of_mem_subscribeAll {tx : Nat} {names : List Bytes} {session : Session}
    (hs : s ∈ (subscribeAll clientId k tx names session r).2.2.subscribers kind name) :
    s ∈ r.subscribers kind name ∨ s = ⟨clientId, tx⟩ := by
  induction names generalizing session r with
  | nil => exact .inl hs
  | cons n names ih =>
    rcases ih hs with hs | hs
    · exact mem_of_mem_register hs
    · exact .inr hs

theorem pushTx_setNames (session : Session) (names : Finset Bytes) :
    (session.setNames names k).recount.pushTx = session.pushTx := by
  cases k <;> rfl

theorem pushTx_subscribeAll (tx : Nat) (names : List Bytes) (session : Session)
    (r : PubSubRegistry) :
    (subscribeAll clientId k tx names session r).2.1.pushTx = session.pushTx := by
  induction names generalizing session r with
  | nil => rfl
  | cons n names ih => exact (ih _ _).trans (pushTx_setNames _ _)

theorem held_unsubscribeAll (names : List Bytes) (session : Session) (r : PubSubRegistry)
    (hother : kind = k → name ∈ names →
      ∀ s ∈ r.subscribers kind name, s.tx = h → s.clientId ≠ clientId) :
    (r.held kind name h).Sublist
      ((unsubscribeAll clientId k names session r).2.2.held kind name h) := by
  induction names generalizing session r with
  | nil => exact refl _
  | cons n names ih =>
    refine (held_unregister r n clientId fun hk hn => ?_).trans (ih _ _ fun hk hn s hs => ?_)
    · exact hother hk (hn ▸ mem_cons_self)
    · exact hother hk (mem_cons_of_mem _ hn) s (mem_of_mem_unregister hs)

theorem mem_of_mem_unsubscribeAll {names : List Bytes} {session : Session}
    (hs : s ∈ (unsubscribeAll clientId k names session r).2.2.subscribers kind name) :
    s ∈ r.subscribers kind name := by
  induction names generalizing session r with
  | nil => exact hs
  | cons n names ih => exact mem_of_mem_unregister (ih hs)

theorem pushTx_unsubscribeAll (names : List Bytes) (session : Session) (r : PubSubRegistry) :
    (unsubscribeAll clientId k names session r).2.1.pushTx = session.pushTx := by
  induction names generalizing session r with
  | nil => rfl
  | cons n names ih => exact (ih _ _).trans (pushTx_setNames _ _)

inductive PubSubTurn where
  | nothing
  | subscribe (kind : SubscriptionKind) (names : List Bytes)
  | unsubscribe (kind : SubscriptionKind) (names : List Bytes)
  | publish (channel message : Bytes)
  deriving DecidableEq

namespace PubSubTurn

def ofSubscribe (kind : SubscriptionKind) (args : List Frame) : PubSubTurn :=
  if args = [] then .nothing else .subscribe kind (bulkArgs args)

def ofPublish : List Frame → PubSubTurn
  | .bulk channel :: .bulk message :: _ => .publish channel message
  | _ => .nothing

def ofFrame (session : Session) : Frame → PubSubTurn
  | .array (.bulk raw :: args) =>
    match upperName raw with
    | none => .nothing
    | some name =>
      if session.isRmp ∧ name ∈ pubsubCommands then .nothing
      else if name = txt "SUBSCRIBE" then ofSubscribe .channel args
      else if name = txt "UNSUBSCRIBE" then
        .unsubscribe .channel (unsubscribeTargets .channel session args)
      else if name = txt "PSUBSCRIBE" then ofSubscribe .pattern args
      else if name = txt "PUNSUBSCRIBE" then
        .unsubscribe .pattern (unsubscribeTargets .pattern session args)
      else if name = txt "PUBLISH" then ofPublish args
      else .nothing
  | _ => .nothing

def apply (clientId : UInt64) (alive : Nat → Bool) (fresh : Nat) (session : Session)
    (r : PubSubRegistry) : PubSubTurn → Session × PubSubRegistry
  | .nothing => (session, r)
  | .subscribe kind names =>
    let channel := session.ensurePushChannel fresh
    (subscribeAll clientId kind channel.1 names channel.2 r).2
  | .unsubscribe kind names =>
    (unsubscribeAll clientId kind names (session.ensurePushChannel fresh).2 r).2
  | .publish channel message => (session, (r.publish alive channel message).registry)

variable {clientId : UInt64} {alive : Nat → Bool} {fresh : Nat} {session : Session}
  {r : PubSubRegistry}

theorem handleSubscribe_apply (kind : SubscriptionKind) (args : List Frame) :
    ((handleSubscribe clientId kind fresh session r args).session,
      (handleSubscribe clientId kind fresh session r args).registry) =
      (ofSubscribe kind args).apply clientId alive fresh session r := by
  unfold handleSubscribe ofSubscribe
  split <;> rfl

theorem handleUnsubscribe_apply (kind : SubscriptionKind) (args : List Frame) :
    ((handleUnsubscribe clientId kind fresh session r args).session,
      (handleUnsubscribe clientId kind fresh session r args).registry) =
      (unsubscribe kind (unsubscribeTargets kind session args)).apply clientId alive fresh
        session r := by
  rw [← unsubscribeTargets_ensurePushChannel kind session fresh args]
  rfl

theorem handlePublish_apply (frame : Frame) (args : List Frame) :
    ((handlePublish alive session r frame args).session,
      (handlePublish alive session r frame args).registry) =
      (ofPublish args).apply clientId alive fresh session r := by
  unfold handlePublish
  split
  · rfl
  · next hother =>
    have hnothing : ofPublish args = .nothing := by
      unfold ofPublish
      split
      · next channel message rest => exact (hother channel message rest rfl).elim
      · rfl
    rw [hnothing]
    rfl

theorem interceptForPubsub_apply (clientId : UInt64) (alive : Nat → Bool) (fresh : Nat)
    (session : Session) (r : PubSubRegistry) (frame : Frame) :
    ((interceptForPubsub clientId alive fresh session r frame).session,
      (interceptForPubsub clientId alive fresh session r frame).registry) =
      (ofFrame session frame).apply clientId alive fresh session r := by
  -- only an array with a bulk string in front is a command
  cases frame with
  | array items =>
    cases items with
    | nil => rfl
    | cons head args =>
      cases head with
      | bulk raw =>
        unfold interceptForPubsub ofFrame
        cases hname : upperName raw with
        | none =>
          simp only [hname]
          rfl
        | some name =>
          simp only [hname]
          split_ifs
          · rfl
          · exact handleSubscribe_apply .channel args
          · exact handleUnsubscribe_apply .channel args
          · exact handleSubscribe_apply .pattern args
          · exact handleUnsubscribe_apply .pattern args
          · exact handlePublish_apply _ args
          · rfl
          · rfl
      | _ => rfl
  | _ => rfl

theorem ofFrame_unsubscribe {frame : Frame} {names : List Bytes}
    (h : ofFrame session frame = .unsubscribe kind names) :
    ∃ raw args, frame = .array (.bulk raw :: args) ∧
      upperName raw = some (asciiUpper kind.unsubscribeWord) ∧
      names = unsubscribeTargets kind session args := by
  have hjoin (k : SubscriptionKind) (args : List Frame) :
      ofSubscribe k args ≠ .unsubscribe kind names := by
    unfold ofSubscribe
    split_ifs <;> intro h <;> cases h
  unfold ofFrame at h
  split at h
  · next raw args =>
    cases hname : upperName raw with
    | none => rw [hname] at h; cases h
    | some word =>
      simp only [hname] at h
      split_ifs at h with hrmp hsub hunsub hpsub hpunsub hpublish
      · exact (hjoin _ _ h).elim
      · cases h
        exact ⟨raw, args, rfl, hname.trans (congrArg some hunsub), rfl⟩
      · exact (hjoin _ _ h).elim
      · cases h
        exact ⟨raw, args, rfl, hname.trans (congrArg some hpunsub), rfl⟩
      · unfold ofPublish at h
        split at h <;> cases h
  · cases h

end PubSubTurn

theorem ensurePushChannel_own {session : Session} (hown : ∀ tx ∈ session.pushTx, tx = h) :
    (session.ensurePushChannel h).1 = h ∧ (session.ensurePushChannel h).2.pushTx = some h := by
  unfold Session.ensurePushChannel
  cases htx : session.pushTx with
  | none => exact ⟨rfl, rfl⟩
  | some tx =>
    have hsame : tx = h := hown tx htx
    exact ⟨hsame, htx.trans (congrArg some hsame)⟩

namespace PubSubTurn

variable {alive : Nat → Bool} {session : Session} {r : PubSubRegistry}

theorem mem_apply (t : PubSubTurn) (hown : ∀ tx ∈ session.pushTx, tx = h) {s : Subscriber}
    (hs : s ∈ (t.apply clientId alive h session r).2.subscribers kind name) :
    s ∈ r.subscribers kind name ∨ s = ⟨clientId, h⟩ := by
  cases t with
  | nothing => exact .inl hs
  | subscribe k names => exact (ensurePushChannel_own hown).1 ▸ mem_of_mem_subscribeAll hs
  | unsubscribe k names => exact .inl (mem_of_mem_unsubscribeAll hs)
  | publish channel message =>
    obtain ⟨p, -, hp⟩ := r.subscribers_publish alive channel message kind name
    exact .inl (mem_of_mem_filter (hp ▸ hs))

theorem own_apply (t : PubSubTurn) (hown : ∀ tx ∈ session.pushTx, tx = h) :
    ∀ tx ∈ (t.apply clientId alive h session r).1.pushTx, tx = h := by
  have hopened : ∀ tx ∈ (session.ensurePushChannel h).2.pushTx, tx = h := by
    rw [(ensurePushChannel_own hown).2]
    intro tx htx
    exact (some.inj htx).symm
  cases t with
  | nothing => exact hown
  | subscribe k names => rw [apply, pushTx_subscribeAll]; exact hopened
  | unsubscribe k names => rw [apply, pushTx_unsubscribeAll]; exact hopened
  | publish channel message => exact hown

theorem held_apply {g fresh : Nat} (t : PubSubTurn) (halive : alive g = true)
    (hother : ∀ names, t = .unsubscribe kind names → name ∈ names →
      ∀ s ∈ r.subscribers kind name, s.tx = g → s.clientId ≠ clientId) :
    (r.held kind name g).Sublist ((t.apply clientId alive fresh session r).2.held kind name g) := by
  cases t with
  | nothing => exact refl _
  | subscribe k names => exact held_subscribeAll k _ _ _ _
  | unsubscribe k names =>
    refine held_unsubscribeAll _ _ _ fun hk hn => ?_
    subst hk
    exact hother names rfl hn
  | publish channel message =>
    obtain ⟨p, hp, hr⟩ := r.subscribers_publish alive channel message kind name
    exact held_of_filter hr fun s _ htx => hp s (htx ▸ halive)

end PubSubTurn

end

namespace Clients

structure Accounted (w : Clients) : Prop where
  unused : ∀ h, w.accepted ≤ h → w.clients h = none
  distinct : ∀ h g c d, w.clients h = some c → w.clients g = some d → c.clientId = d.clientId → h = g
  own : ∀ h c, w.clients h = some c → ∀ tx ∈ c.session.pushTx, tx = h
  registered : ∀ kind name, ∀ s ∈ w.registry.subscribers kind name,
    ∃ c, w.served s.tx = some c ∧ c.clientId = s.clientId

structure Enrolled (w : Clients) : Prop where
  unused : ∀ h, w.accepted ≤ h → w.clients h = none
  own : ∀ h c, w.clients h = some c → ∀ tx ∈ c.session.pushTx, tx = h
  registered : ∀ kind name, ∀ s ∈ w.registry.subscribers kind name,
    ∃ c, w.served s.tx = some c ∧ c.clientId = s.clientId

variable {w : Clients}

theorem Accounted.enrolled (hw : w.Accounted) : w.Enrolled := ⟨hw.unused, hw.own, hw.registered⟩

theorem served_eq_some {h : Nat} {c : Client} :
    w.served h = some c ↔ w.clients h = some c ∧ c.serving = true := filter_eq_some_iff

theorem set_clients (w : Clients) (h g : Nat) (d : Option Client) :
    (w.set h d).clients g = if g = h then d else w.clients g :=
  update_apply _ _ _ _

theorem served_set (w : Clients) (h g : Nat) (d : Option Client) :
    (w.set h d).served g = if g = h then d.filter Client.serving else w.served g := by
  rw [served, set_clients]
  split <;> rfl

theorem accept_clients (w : Clients) (l : Listener) (g : Nat) :
    (w.accept l).clients g =
      if g = w.accepted then some ⟨w.nextClientId l, !l.isTls, true, l.session⟩
      else w.clients g :=
  update_apply _ _ _ _

theorem Enrolled.start : Enrolled start where
  unused _ _ := rfl
  own _ _ h := nomatch h
  registered kind name s hs := by
    have hempty := PubSubRegistry.subscribers_empty kind name
    exact absurd (hempty ▸ hs : s ∈ []) not_mem_nil

theorem Accounted.start : Accounted start :=
  ⟨Enrolled.start.unused, fun _ _ _ _ h => (by cases h), Enrolled.start.own,
    Enrolled.start.registered⟩

theorem Enrolled.replace (hw : w.Enrolled) {h : Nat} {c d : Client} (hc : w.clients h = some c)
    (hid : d.clientId = c.clientId) (hserving : c.serving = true → d.serving = true)
    (hown : ∀ tx ∈ d.session.pushTx, tx = h) {r : PubSubRegistry}
    (hr : ∀ kind name, ∀ s ∈ r.subscribers kind name, s ∈ w.registry.subscribers kind name ∨
      d.serving = true ∧ s = ⟨d.clientId, h⟩) :
    Enrolled { w.set h (some d) with registry := r } := by
  constructor
  · intro g hg
    have hne : g ≠ h := by
      rintro rfl
      rw [hw.unused g hg] at hc
      cases hc
    exact (set_clients w h g _).trans ((if_neg hne).trans (hw.unused g hg))
  · intro g e he
    have he' := (set_clients w h g _).symm.trans he
    split at he'
    · next hg =>
      cases he'
      exact hg ▸ hown
    · exact hw.own g e he'
  · intro kind name s hs
    have hlookup : ({ w.set h (some d) with registry := r } : Clients).served s.tx =
        if s.tx = h then (some d).filter Client.serving else w.served s.tx := served_set w h s.tx _
    rw [hlookup]
    rcases hr kind name s hs with hs | ⟨hserve, rfl⟩
    · obtain ⟨e, he, heid⟩ := hw.registered kind name s hs
      split
      · next hg =>
        rw [hg] at he
        obtain ⟨he, hserve⟩ := served_eq_some.mp he
        cases hc.symm.trans he
        exact ⟨d, by rw [filter_some, if_pos (hserving hserve)], hid.trans heid⟩
      · exact ⟨e, he, heid⟩
    · rw [if_pos rfl, filter_some, if_pos hserve]
      exact ⟨d, rfl, rfl⟩

theorem Enrolled.remove (hw : w.Enrolled) {h : Nat} {r : PubSubRegistry}
    (hr : ∀ kind name, ∀ s ∈ r.subscribers kind name,
      s ∈ w.registry.subscribers kind name ∧ s.tx ≠ h) :
    Enrolled { w.set h none with registry := r } := by
  constructor
  · intro g hg
    refine (set_clients w h g none).trans ?_
    split
    · rfl
    · exact hw.unused g hg
  · intro g e he
    have he' := (set_clients w h g none).symm.trans he
    split at he'
    · cases he'
    · exact hw.own g e he'
  · intro kind name s hs
    obtain ⟨hs, htx⟩ := hr kind name s hs
    obtain ⟨e, he, heid⟩ := hw.registered kind name s hs
    exact ⟨e, (served_set w h s.tx none).trans ((if_neg htx).trans he), heid⟩

theorem Enrolled.accept (hw : w.Enrolled) (l : Listener) : (w.accept l).Enrolled := by
  constructor
  · intro g hg
    have hlt : w.accepted + 1 ≤ g := hg
    rw [accept_clients, if_neg (by omega)]
    exact hw.unused g (by omega)
  · intro g e he
    rw [accept_clients] at he
    split at he
    · cases he
      cases l <;> exact fun tx htx => by cases htx
    · exact hw.own g e he
  · intro kind name s hs
    obtain ⟨e, he, heid⟩ := hw.registered kind name s hs
    have hne : s.tx ≠ w.accepted := by
      intro heq
      have := (served_eq_some.mp he).1
      rw [hw.unused s.tx heq.ge] at this
      cases this
    refine ⟨e, ?_, heid⟩
    rw [served, accept_clients, if_neg hne]
    exact he

theorem Enrolled.step (hw : w.Enrolled) (e : ClientEvent) : (w.step e).Enrolled := by
  cases e with
  | accept l => exact hw.accept l
  | handshake h ok =>
    change (w.handshake h ok).Enrolled
    unfold handshake
    split
    · exact hw
    · next c hc =>
      obtain ⟨hc, hserving⟩ := filter_eq_some_iff.mp hc
      cases ok with
      | true =>
        exact hw.replace (d := { c with serving := true }) hc rfl (fun _ => rfl) (hw.own h c hc)
          fun _ _ _ hs => .inl hs
      | false =>
        refine hw.remove fun kind name s hs => ⟨hs, ?_⟩
        rintro rfl
        obtain ⟨d, hd, -⟩ := hw.registered kind name s hs
        obtain ⟨hd, hdserving⟩ := served_eq_some.mp hd
        cases hc.symm.trans hd
        rw [hdserving] at hserving
        cases hserving
  | command h frame =>
    change (w.command h frame).Enrolled
    unfold command
    split
    · exact hw
    · next c hc =>
      obtain ⟨hc, hserving⟩ := served_eq_some.mp hc
      obtain ⟨hsession, hregistry⟩ := Prod.ext_iff.mp (PubSubTurn.interceptForPubsub_apply c.clientId
        w.alive h c.session w.registry frame)
      dsimp only at hsession hregistry ⊢
      rw [hsession, hregistry]
      let o := (PubSubTurn.ofFrame c.session frame).apply c.clientId w.alive h c.session w.registry
      exact hw.replace (d := { c with session := o.1 }) hc rfl (fun hs => hs)
        (PubSubTurn.own_apply _ (hw.own h c hc)) fun kind name s hs =>
          (PubSubTurn.mem_apply _ (hw.own h c hc) hs).imp_right fun heq => ⟨hserving, heq⟩
  | replicated channel message =>
    refine ⟨hw.unused, hw.own, fun kind name s hs => ?_⟩
    obtain ⟨p, -, hp⟩ := w.registry.subscribers_publish w.alive channel message kind name
    exact hw.registered kind name s (mem_of_mem_filter (hp ▸ hs))
  | hangUp h =>
    change (w.set h ((w.clients h).map fun c => { c with receiving := false })).Enrolled
    cases hc : w.clients h with
    | none =>
      have hsame : w.set h none = w := by
        rw [set, ← hc, update_eq_self]
      rw [map_none, hsame]
      exact hw
    | some c =>
      exact hw.replace (d := { c with receiving := false }) hc rfl (fun hs => hs) (hw.own h c hc)
        fun _ _ _ hs => .inl hs
  | close h =>
    change (w.close h).Enrolled
    unfold close
    split
    · exact hw
    · next c hc =>
      obtain ⟨hc, -⟩ := served_eq_some.mp hc
      refine hw.remove fun kind name s hs => ?_
      rw [w.registry.subscribers_removeAll] at hs
      obtain ⟨hs, hid⟩ := mem_filter.mp hs
      refine ⟨hs, ?_⟩
      rintro rfl
      obtain ⟨d, hd, hdid⟩ := hw.registered kind name s hs
      cases hc.symm.trans (served_eq_some.mp hd).1
      exact of_decide_eq_true hid hdid.symm

theorem clients_step {e : ClientEvent} {g : Nat} {d : Client}
    (hd : (w.step e).clients g = some d) :
    (∃ c, w.clients g = some c ∧ c.clientId = d.clientId) ∨
      ∃ l, e = .accept l ∧ g = w.accepted ∧ d.clientId = w.nextClientId l := by
  have hset {h : Nat} {d' : Option Client}
      (hd' : ∀ x, d' = some x → ∃ c, w.clients h = some c ∧ c.clientId = x.clientId)
      (hd : (w.set h d').clients g = some d) :
      ∃ c, w.clients g = some c ∧ c.clientId = d.clientId := by
    rw [set_clients] at hd
    split at hd
    · next hg => exact hg ▸ hd' d hd
    · exact ⟨d, hd, rfl⟩
  cases e with
  | accept l =>
    have hd' := (accept_clients w l g).symm.trans hd
    split at hd'
    · next hg =>
      cases hd'
      exact .inr ⟨l, rfl, hg, rfl⟩
    · exact .inl ⟨d, hd', rfl⟩
  | handshake h ok =>
    left
    change (w.handshake h ok).clients g = some d at hd
    unfold handshake at hd
    split at hd
    · exact ⟨d, hd, rfl⟩
    · next c hc =>
      refine hset (fun x hx => ⟨c, (filter_eq_some_iff.mp hc).1, ?_⟩) hd
      cases ok with
      | true =>
        cases hx
        rfl
      | false => cases hx
  | command h frame =>
    left
    change (w.command h frame).clients g = some d at hd
    unfold command at hd
    split at hd
    · exact ⟨d, hd, rfl⟩
    · next c hc =>
      refine hset (fun x hx => ⟨c, (served_eq_some.mp hc).1, ?_⟩) hd
      cases hx
      rfl
  | replicated channel message => exact .inl ⟨d, hd, rfl⟩
  | hangUp h =>
    refine .inl (hset (fun x hx => ?_) hd)
    obtain ⟨c, hc, rfl⟩ := map_eq_some_iff.mp hx
    exact ⟨c, hc, rfl⟩
  | close h =>
    left
    change (w.close h).clients g = some d at hd
    unfold close at hd
    split at hd
    · exact ⟨d, hd, rfl⟩
    · exact hset (fun x hx => by cases hx) hd

theorem Accounted.other (hw : w.Accounted) {h g : Nat} {c : Client} (hc : w.clients h = some c)
    (hne : g ≠ h) {kind : SubscriptionKind} {name : Bytes} :
    ∀ s ∈ w.registry.subscribers kind name, s.tx = g → s.clientId ≠ c.clientId := by
  intro s hs htx hid
  obtain ⟨d, hd, hdid⟩ := hw.registered kind name s hs
  exact hne (htx ▸ hw.distinct s.tx h d c (served_eq_some.mp hd).1 hc (hdid.trans hid))

theorem Accounted.step (hw : w.Accounted) {e : ClientEvent} (he : w.Distinct e) :
    (w.step e).Accounted := by
  obtain ⟨hunused, hown, hregistered⟩ := hw.enrolled.step e
  refine ⟨hunused, fun h g c d hc hd hid => ?_, hown, hregistered⟩
  rcases clients_step hc with ⟨c', hc', hcid⟩ | ⟨l, rfl, hh, hcid⟩
  · rcases clients_step hd with ⟨d', hd', hdid⟩ | ⟨l, rfl, -, hdid⟩
    · exact hw.distinct h g c' d' hc' hd' (hcid.trans (hid.trans hdid.symm))
    · exact absurd (hcid.trans (hid.trans hdid)) (he h c' hc')
  · rcases clients_step hd with ⟨d', hd', hdid⟩ | ⟨l', -, hg, -⟩
    · exact absurd (hdid.trans (hid.symm.trans hcid)) (he g d' hd')
    · exact hh.trans hg.symm

theorem Accounted.keepsSubscriptions (hw : w.Accounted) (e : ClientEvent) :
    w.KeepsSubscriptions e := by
  intro h kind name halive hstays
  cases e with
  | accept l => exact refl _
  | handshake g ok =>
    change (w.registry.held kind name h).Sublist ((w.handshake g ok).registry.held kind name h)
    unfold handshake
    split <;> exact refl _
  | command g frame =>
    change (w.registry.held kind name h).Sublist ((w.command g frame).registry.held kind name h)
    unfold command
    split
    · exact refl _
    · next c hc =>
      have hregistry := congrArg Prod.snd (PubSubTurn.interceptForPubsub_apply c.clientId w.alive g
        c.session w.registry frame)
      dsimp only at hregistry ⊢
      rw [hregistry]
      refine PubSubTurn.held_apply _ halive fun names hturn hmem => ?_
      obtain ⟨raw, args, hframe, hname, rfl⟩ := PubSubTurn.ofFrame_unsubscribe hturn
      refine hw.other (served_eq_some.mp hc).1 fun hg => hstays ?_
      subst hg
      exact ⟨rfl, c, hc, raw, args, hframe, hname, hmem⟩
  | replicated channel message =>
    obtain ⟨p, hp, hr⟩ := w.registry.subscribers_publish w.alive channel message kind name
    exact held_of_filter hr fun s _ htx => hp s (htx ▸ halive)
  | hangUp g => exact refl _
  | close g =>
    change (w.registry.held kind name h).Sublist ((w.close g).registry.held kind name h)
    unfold close
    split
    · exact refl _
    · next c hc =>
      have hne : h ≠ g := fun heq => hstays heq.symm
      exact held_of_filter (w.registry.subscribers_removeAll _ kind name) fun s hs htx =>
        decide_eq_true (hw.other (served_eq_some.mp hc).1 hne s hs htx)

theorem accounted_of_runs (hrun : RunsTo step Distinct start w) : w.Accounted :=
  hrun.invariant Accounted.start fun _ _ he hw => hw.step he

/-- As long as every connection gets a number no other connection has, no connection loses a
subscription to what another does. -/
theorem subscriptions_kept (hrun : RunsTo step Distinct start w) (e : ClientEvent) :
    w.KeepsSubscriptions e :=
  (accounted_of_runs hrun).keepsSubscriptions e

def subscribeNews : Frame := .command [txt "SUBSCRIBE", txt "news"]

def subscribed : Clients := (start.step (.accept .resp)).step (.command 0 subscribeNews)

theorem subscribed_runs : RunsTo step Distinct start subscribed := by
  have hstart : RunsTo step Distinct start start := .start
  have haccept : RunsTo step Distinct start (start.step (.accept .resp)) :=
    hstart.next _ fun _ _ hc => nomatch hc
  exact haccept.next (.command 0 subscribeNews) trivial

theorem held_subscribed : subscribed.registry.held .channel (txt "news") 0 = [⟨1, 0⟩] := by
  decide

theorem subscriptions_kept_news :
    subscribed.registry.held .channel (txt "news") 0 = [⟨1, 0⟩] ∧
      (subscribed.step (.accept .resp)).KeepsSubscriptions (.close 1) := by
  have hdistinct : subscribed.Distinct (.accept .resp) := by
    intro h c hc
    cases h with
    | zero =>
      have hid : (subscribed.clients 0).map Client.clientId = some 1 := by decide
      rw [hc] at hid
      rw [some.inj hid]
      decide
    | succ h =>
      rw [(accounted_of_runs subscribed_runs).unused (h + 1) (Nat.le_add_left 1 h)] at hc
      cases hc
  exact ⟨held_subscribed, subscriptions_kept (subscribed_runs.next _ hdistinct) _⟩

/-- The TLS client has the same number, and its close takes the registration with it. -/
theorem close_removes_other :
    ¬ ∀ (w : Clients) (e : ClientEvent), RunsTo step (fun _ _ => True) start w →
      w.KeepsSubscriptions e := by
  intro hclaim
  let both : Clients := (subscribed.step (.accept .respTls)).step (.handshake 1 true)
  have hrun : RunsTo step (fun _ _ => True) start both :=
    ((subscribed_runs.mono fun _ _ _ => trivial).next _ trivial).next _ trivial
  have hkept := hclaim both (.close 1) hrun 0 .channel (txt "news") rfl (by nofun)
  have hheld : both.registry.held .channel (txt "news") 0 = [⟨1, 0⟩] := held_subscribed
  rw [hheld] at hkept
  have hgone : (both.step (.close 1)).registry.held .channel (txt "news") 0 = [] := by
    decide
  rw [hgone] at hkept
  cases hkept

end Clients

end RocketMem
