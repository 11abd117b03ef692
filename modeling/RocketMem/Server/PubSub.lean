import RocketMem.Server.Session

namespace RocketMem

inductive SubscriptionKind where
  | channel
  | pattern
  deriving DecidableEq, Repr

/-- One connection's registration: the number of the connection and the channel its messages are
pushed through. -/
structure Subscriber where
  clientId : UInt64
  tx : Nat
  deriving DecidableEq, Repr

structure PubSubRegistry where
  channels : HashMap Bytes (List Subscriber)
  patterns : HashMap Bytes (List Subscriber)

/-- A name nobody is registered under is dropped from its map. -/
def nonEmpty (subs : List Subscriber) : Option (List Subscriber) :=
  if subs = [] then none else some subs

/-- What `publish` did: the sends that succeeded, those on patterns in no fixed order. -/
structure Published where
  messages : List (Nat × Frame)
  pmessages : Multiset (Nat × Frame)
  registry : PubSubRegistry

namespace Published

def delivered (p : Published) : Nat := p.messages.length + p.pmessages.card

end Published

namespace PubSubRegistry

def empty : PubSubRegistry := ⟨∅, ∅⟩

def names (r : PubSubRegistry) : SubscriptionKind → HashMap Bytes (List Subscriber)
  | .channel => r.channels
  | .pattern => r.patterns

def setNames (r : PubSubRegistry) (m : HashMap Bytes (List Subscriber)) :
    SubscriptionKind → PubSubRegistry
  | .channel => { r with channels := m }
  | .pattern => { r with patterns := m }

def subscribers (r : PubSubRegistry) (kind : SubscriptionKind) (name : Bytes) : List Subscriber :=
  ((r.names kind).lookup name).getD []

variable (r : PubSubRegistry)

def enlist (kind : SubscriptionKind) (name : Bytes) (clientId : UInt64) (tx : Nat) :
    Nat × PubSubRegistry :=
  let subs := r.subscribers kind name ++ [⟨clientId, tx⟩]
  (subs.length, r.setNames ((r.names kind).insert name subs) kind)

def delist (kind : SubscriptionKind) (name : Bytes) (clientId : UInt64) : Nat × PubSubRegistry :=
  match (r.names kind).lookup name with
  | none => (0, r)
  | some subs =>
    let remaining := subs.filter fun s => s.clientId ≠ clientId
    (remaining.length,
      match nonEmpty remaining with
      | none => r.setNames ((r.names kind).erase name) kind
      | some subs => r.setNames ((r.names kind).insert name subs) kind)

def subscribe (channel : Bytes) (clientId : UInt64) (tx : Nat) : Nat × PubSubRegistry :=
  r.enlist .channel channel clientId tx

def psubscribe (pattern : Bytes) (clientId : UInt64) (tx : Nat) : Nat × PubSubRegistry :=
  r.enlist .pattern pattern clientId tx

def unsubscribe (channel : Bytes) (clientId : UInt64) : Nat × PubSubRegistry :=
  r.delist .channel channel clientId

def punsubscribe (pattern : Bytes) (clientId : UInt64) : Nat × PubSubRegistry :=
  r.delist .pattern pattern clientId

/-- The call that a `SUBSCRIBE` or a `PSUBSCRIBE` makes for each of its names. -/
def register : SubscriptionKind → Bytes → UInt64 → Nat → Nat × PubSubRegistry
  | .channel => r.subscribe
  | .pattern => r.psubscribe

def unregister : SubscriptionKind → Bytes → UInt64 → Nat × PubSubRegistry
  | .channel => r.unsubscribe
  | .pattern => r.punsubscribe

def numSub (channels : List Bytes) : List (Bytes × Nat) :=
  channels.map fun c => (c, (r.subscribers .channel c).length)

def numPat : Nat := r.patterns.keys.card

/-- `publish`, where `alive` tells which channels still have their receiver. -/
def publish (alive : Nat → Bool) (channel message : Bytes) : Published :=
  let live (subs : List Subscriber) := subs.filter fun s => alive s.tx
  let matching := r.patterns.retain fun pattern _ => globMatch pattern channel
  { messages := (live (r.subscribers .channel channel)).map fun s =>
      (s.tx, .push [.bulk (txt "message"), .bulk channel, .bulk message])
    pmessages := matching.entries.bind fun e => (live e.2 : Multiset Subscriber).map fun s =>
      (s.tx, .push [.bulk (txt "pmessage"), .bulk e.1, .bulk channel, .bulk message])
    registry :=
      { channels := r.channels.filterMapValues fun name subs =>
          if name = channel then nonEmpty (live subs) else some subs
        patterns := r.patterns.filterMapValues fun pattern subs =>
          if globMatch pattern channel then nonEmpty (live subs) else some subs } }

/-- `remove_all`, called when a connection's guard is dropped. -/
def removeAll (clientId : UInt64) : PubSubRegistry :=
  let others (_ : Bytes) (subs : List Subscriber) :=
    nonEmpty (subs.filter fun s => s.clientId ≠ clientId)
  ⟨r.channels.filterMapValues others, r.patterns.filterMapValues others⟩

end PubSubRegistry

namespace SubscriptionKind

def subscribeWord : SubscriptionKind → Bytes
  | .channel => txt "subscribe"
  | .pattern => txt "psubscribe"

def unsubscribeWord : SubscriptionKind → Bytes
  | .channel => txt "unsubscribe"
  | .pattern => txt "punsubscribe"

end SubscriptionKind

namespace Session

def names (session : Session) : SubscriptionKind → Finset Bytes
  | .channel => session.subscriptions
  | .pattern => session.psubscriptions

def setNames (session : Session) (names : Finset Bytes) : SubscriptionKind → Session
  | .channel => { session with subscriptions := names }
  | .pattern => { session with psubscriptions := names }

def totalSubscriptionCount (session : Session) : Nat :=
  session.subscriptions.card + session.psubscriptions.card

def recount (session : Session) : Session :=
  { session with subscriptionCount := session.totalSubscriptionCount }

/-- `ensure_push_channel`; `fresh` is the channel opened when the session has none. -/
def ensurePushChannel (session : Session) (fresh : Nat) : Nat × Session :=
  match session.pushTx with
  | some tx => (tx, session)
  | none => (fresh, { session with pushTx := some fresh })

end Session

/-- What intercepting a command did. Without a `reply` the command goes on to the next
interception, whatever happened to the session. `pushed` are the frames sent to the channels of
connections, `forwarded` the frame replicas get. -/
structure PubSubOutcome where
  reply : Option Frame
  session : Session
  registry : PubSubRegistry
  pushed : List (Nat × Frame) := []
  published : Multiset (Nat × Frame) := 0
  forwarded : Option Frame := none

section

variable (clientId : UInt64)

def acknowledgement (word : Bytes) (name : Frame) (count : Nat) : Frame :=
  .push [.bulk word, name, .integer count]

def subscribeAll (kind : SubscriptionKind) (tx : Nat) :
    List Bytes → Session → PubSubRegistry → List Frame × Session × PubSubRegistry
  | [], session, registry => ([], session, registry)
  | name :: names, session, registry =>
    let session := (session.setNames (insert name (session.names kind)) kind).recount
    let registry := (registry.register kind name clientId tx).2
    let rest := subscribeAll kind tx names session registry
    (acknowledgement kind.subscribeWord (.bulk name) session.subscriptionCount :: rest.1, rest.2)

def unsubscribeAll (kind : SubscriptionKind) :
    List Bytes → Session → PubSubRegistry → List Frame × Session × PubSubRegistry
  | [], session, registry => ([], session, registry)
  | name :: names, session, registry =>
    let session := (session.setNames ((session.names kind).erase name) kind).recount
    let registry := (registry.unregister kind name clientId).2
    let rest := unsubscribeAll kind names session registry
    (acknowledgement kind.unsubscribeWord (.bulk name) session.subscriptionCount :: rest.1, rest.2)

def bulkArgs (items : List Frame) : List Bytes :=
  items.filterMap fun
    | .bulk b => some b
    | _ => none

/-- The names an unsubscription is about: its arguments, or else every name of the session, in
order. -/
def unsubscribeTargets (kind : SubscriptionKind) (session : Session) (args : List Frame) :
    List Bytes :=
  if bulkArgs args = [] then (session.names kind).sort (· ≤ ·) else bulkArgs args

theorem unsubscribeTargets_ensurePushChannel (kind : SubscriptionKind) (session : Session)
    (fresh : Nat) (args : List Frame) :
    unsubscribeTargets kind (session.ensurePushChannel fresh).2 args =
      unsubscribeTargets kind session args := by
  unfold Session.ensurePushChannel
  cases session.pushTx <;> cases kind <;> rfl

def acknowledged (tx : Nat) (r : List Frame × Session × PubSubRegistry) : PubSubOutcome :=
  { reply := r.1.head?, session := r.2.1, registry := r.2.2
    pushed := r.1.tail.map fun f => (tx, f) }

def handleSubscribe (kind : SubscriptionKind) (fresh : Nat) (session : Session)
    (registry : PubSubRegistry) (args : List Frame) : PubSubOutcome :=
  if args = [] then
    ⟨some (.error (txt "ERR wrong number of arguments for '" ++ kind.subscribeWord ++
      txt "' command")), session, registry, [], 0, none⟩
  else
    let channel := session.ensurePushChannel fresh
    acknowledged channel.1 (subscribeAll clientId kind channel.1 (bulkArgs args) channel.2 registry)

def handleUnsubscribe (kind : SubscriptionKind) (fresh : Nat) (session : Session)
    (registry : PubSubRegistry) (args : List Frame) : PubSubOutcome :=
  let channel := session.ensurePushChannel fresh
  let r := unsubscribeAll clientId kind (unsubscribeTargets kind channel.2 args) channel.2 registry
  acknowledged channel.1
    (if r.1 = [] then [acknowledgement kind.unsubscribeWord .null 0] else r.1, r.2)

def handlePublish (alive : Nat → Bool) (session : Session) (registry : PubSubRegistry)
    (frame : Frame) (args : List Frame) : PubSubOutcome :=
  match args with
  | .bulk channel :: .bulk message :: _ =>
    let p := registry.publish alive channel message
    { reply := some (.integer p.delivered), session := session, registry := p.registry
      pushed := p.messages, published := p.pmessages, forwarded := some frame }
  | _ =>
    ⟨some (.error (txt "ERR wrong number of arguments for 'publish' command")), session, registry,
      [], 0, none⟩

def handlePubsub (registry : PubSubRegistry) (args : List Frame) : Frame :=
  match args with
  | .bulk subBytes :: rest =>
    let sub := asciiUpper (fromUtf8Lossy subBytes)
    if sub = txt "CHANNELS" then
      let keep (c : Bytes) : Bool :=
        match rest.head? with
        | some (.bulk pattern) => globMatch pattern c
        | _ => true
      .array (((registry.channels.keys.filter fun c => keep c).sort (· ≤ ·)).map .bulk)
    else if sub = txt "NUMSUB" then
      .array ((registry.numSub (bulkArgs rest)).flatMap fun p => [.bulk p.1, .integer p.2])
    else if sub = txt "NUMPAT" then .integer registry.numPat
    else .error (txt "ERR unknown PUBSUB subcommand '" ++ sub ++ txt "'")
  | _ => .error (txt "ERR wrong number of arguments for 'pubsub' command")

def pubsubCommands : List Bytes :=
  [txt "SUBSCRIBE", txt "UNSUBSCRIBE", txt "PSUBSCRIBE", txt "PUNSUBSCRIBE", txt "PUBLISH",
    txt "PUBSUB"]

/-- `intercept_for_pubsub`: the four subscriptions, `PUBLISH` and `PUBSUB`. -/
def interceptForPubsub (alive : Nat → Bool) (fresh : Nat) (session : Session)
    (registry : PubSubRegistry) (frame : Frame) : PubSubOutcome :=
  let unanswered : PubSubOutcome := { reply := none, session := session, registry := registry }
  match frame with
  | .array (.bulk raw :: args) =>
    match upperName raw with
    | none => unanswered
    | some name =>
      if session.isRmp ∧ name ∈ pubsubCommands then
        { unanswered with reply := some (.error (txt "ERR pub/sub is not supported over RMP")) }
      else if name = txt "SUBSCRIBE" then
        handleSubscribe clientId .channel fresh session registry args
      else if name = txt "UNSUBSCRIBE" then
        handleUnsubscribe clientId .channel fresh session registry args
      else if name = txt "PSUBSCRIBE" then
        handleSubscribe clientId .pattern fresh session registry args
      else if name = txt "PUNSUBSCRIBE" then
        handleUnsubscribe clientId .pattern fresh session registry args
      else if name = txt "PUBLISH" then handlePublish alive session registry frame args
      else if name = txt "PUBSUB" then
        { unanswered with reply := some (handlePubsub registry args) }
      else unanswered
  | _ => unanswered

end

namespace PubSubRegistry

variable (r : PubSubRegistry) (kind k : SubscriptionKind)

theorem getD_nonEmpty (subs : List Subscriber) : (nonEmpty subs).getD [] = subs := by
  unfold nonEmpty
  split
  · next h => exact h.symm
  · rfl

theorem subscribers_empty (kind : SubscriptionKind) (name : Bytes) :
    empty.subscribers kind name = [] := by
  have hnone : (∅ : HashMap Bytes (List Subscriber)).lookup name = none := Finmap.lookup_empty name
  cases kind <;> exact congrArg (fun o : Option (List Subscriber) => o.getD []) hnone

theorem names_setNames (m : HashMap Bytes (List Subscriber)) (kind k : SubscriptionKind) :
    (r.setNames m kind).names k = if k = kind then m else r.names k := by
  cases kind <;> cases k <;> rfl

theorem subscribers_setNames_insert (name n : Bytes)
    (subs : List Subscriber) :
    (r.setNames ((r.names kind).insert name subs) kind).subscribers k n =
      if k = kind ∧ n = name then subs else r.subscribers k n := by
  unfold subscribers
  rw [names_setNames]
  by_cases hk : k = kind
  · subst hk
    by_cases hn : n = name
    · subst hn
      simp [Finmap.lookup_insert]
    · simp [Finmap.lookup_insert_of_ne _ hn, hn]
  · simp [hk]

theorem subscribers_setNames_erase (name n : Bytes) :
    (r.setNames ((r.names kind).erase name) kind).subscribers k n =
      if k = kind ∧ n = name then [] else r.subscribers k n := by
  unfold subscribers
  rw [names_setNames]
  by_cases hk : k = kind
  · subst hk
    by_cases hn : n = name
    · subst hn
      simp [Finmap.lookup_erase]
    · simp [Finmap.lookup_erase_ne hn, hn]
  · simp [hk]

theorem subscribers_register (name n : Bytes) (clientId : UInt64)
    (tx : Nat) :
    (r.register kind name clientId tx).2.subscribers k n =
      if k = kind ∧ n = name then r.subscribers kind name ++ [⟨clientId, tx⟩]
      else r.subscribers k n := by
  cases kind <;> exact subscribers_setNames_insert r _ k name n _

theorem subscribers_delist (name n : Bytes) (clientId : UInt64) :
    (r.delist kind name clientId).2.subscribers k n =
      if k = kind ∧ n = name then (r.subscribers kind name).filter fun s => s.clientId ≠ clientId
      else r.subscribers k n := by
  cases hl : (r.names kind).lookup name with
  | none =>
    have hempty : r.subscribers kind name = [] := by rw [subscribers, hl]; rfl
    have hsame : (r.delist kind name clientId).2 = r := by rw [delist, hl]
    rw [hsame]
    split
    · next h => rw [h.1, h.2, hempty]; rfl
    · rfl
  | some subs =>
    have hsubs : r.subscribers kind name = subs := by rw [subscribers, hl]; rfl
    rw [hsubs]
    by_cases hrem : (subs.filter fun s => s.clientId ≠ clientId) = []
    · have hnone : (r.delist kind name clientId).2 = r.setNames ((r.names kind).erase name) kind := by
        simp only [delist, hl, nonEmpty, hrem, if_true]
      rw [hnone, subscribers_setNames_erase, hrem]
    · have hsome : (r.delist kind name clientId).2 = r.setNames ((r.names kind).insert name
          (subs.filter fun s => s.clientId ≠ clientId)) kind := by
        simp only [delist, hl, nonEmpty, hrem, if_false]
      rw [hsome, subscribers_setNames_insert]

theorem subscribers_unregister (name n : Bytes) (clientId : UInt64) :
    (r.unregister kind name clientId).2.subscribers k n =
      if k = kind ∧ n = name then (r.subscribers kind name).filter fun s => s.clientId ≠ clientId
      else r.subscribers k n := by
  cases kind <;> exact subscribers_delist r _ k name n clientId

theorem getD_lookup_filterMapValues (p : Bytes → Subscriber → Bool)
    (f : Bytes → List Subscriber → Option (List Subscriber)) (name : Bytes)
    (hf : ∀ subs, (f name subs).getD [] = subs.filter (p name))
    (m : HashMap Bytes (List Subscriber)) :
    ((m.filterMapValues f).lookup name).getD [] = ((m.lookup name).getD []).filter (p name) := by
  rw [HashMap.lookup_filterMapValues]
  cases m.lookup name with
  | none => rfl
  | some subs => exact hf subs

theorem subscribers_removeAll (clientId : UInt64) (kind : SubscriptionKind) (name : Bytes) :
    (r.removeAll clientId).subscribers kind name =
      (r.subscribers kind name).filter fun s => s.clientId ≠ clientId := by
  cases kind <;>
  exact getD_lookup_filterMapValues (fun _ s => s.clientId ≠ clientId) _ name
    (fun _ => getD_nonEmpty _) _

theorem subscribers_publish (alive : Nat → Bool) (channel message : Bytes) (kind : SubscriptionKind)
    (name : Bytes) :
    ∃ p : Subscriber → Bool, (∀ s, alive s.tx = true → p s = true) ∧
      (r.publish alive channel message).registry.subscribers kind name =
        (r.subscribers kind name).filter p := by
  have hpruned (test : Bytes → Prop) [DecidablePred test] (m : HashMap Bytes (List Subscriber)) :
      ((m.filterMapValues fun n subs =>
          if test n then nonEmpty (subs.filter fun s => alive s.tx) else some subs).lookup name).getD []
        = ((m.lookup name).getD []).filter fun s => !decide (test name) || alive s.tx := by
    refine getD_lookup_filterMapValues (fun n s => !decide (test n) || alive s.tx) _ name
      (fun subs => ?_) m
    by_cases htest : test name
    · simp [htest, getD_nonEmpty]
    · simp [htest]
  have hkept (gone : Bool) (s : Subscriber) (hs : alive s.tx = true) :
      (gone || alive s.tx) = true := by rw [hs, Bool.or_true]
  cases kind with
  | channel => exact ⟨_, hkept _, hpruned (fun n => n = channel) _⟩
  | pattern => exact ⟨_, hkept _, hpruned (fun n => globMatch n channel = true) _⟩

end PubSubRegistry

end RocketMem
