import Mathlib.Algebra.Order.BigOperators.Group.Multiset
import RocketMem.Server.Clients

namespace RocketMem

open List Option PubSubTurn

def PubSubRegistry.owned (r : PubSubRegistry) (kind : SubscriptionKind) (name : Bytes)
    (clientId : UInt64) : Nat :=
  (r.subscribers kind name).countP fun s => s.clientId = clientId

section

variable {kind k : SubscriptionKind} {name n : Bytes} {clientId owner : UInt64}
  (r : PubSubRegistry)

theorem owned_register (tx : Nat) :
    (r.register k n owner tx).2.owned kind name clientId =
      r.owned kind name clientId + if kind = k ∧ name = n ∧ clientId = owner then 1 else 0 := by
  unfold PubSubRegistry.owned
  rw [r.subscribers_register]
  by_cases hn : kind = k ∧ name = n
  · obtain ⟨rfl, rfl⟩ := hn
    by_cases hid : owner = clientId
    · simp [hid]
    · simp [hid, Ne.symm hid]
  · have hnot : ¬ (kind = k ∧ name = n ∧ clientId = owner) := fun h => hn ⟨h.1, h.2.1⟩
    rw [if_neg hn, if_neg hnot]
    rfl

theorem owned_unregister :
    (r.unregister k n owner).2.owned kind name clientId =
      if kind = k ∧ name = n ∧ clientId = owner then 0 else r.owned kind name clientId := by
  unfold PubSubRegistry.owned
  rw [r.subscribers_unregister]
  by_cases hn : kind = k ∧ name = n
  · obtain ⟨rfl, rfl⟩ := hn
    rw [if_pos ⟨rfl, rfl⟩, countP_filter]
    by_cases hid : clientId = owner
    · simp [hid]
    · rw [if_neg (by simp [hid])]
      refine countP_congr fun s _ => ?_
      by_cases hs : s.clientId = clientId
      · simp [hs, hid]
      · simp [hs]
  · have hnot : ¬ (kind = k ∧ name = n ∧ clientId = owner) := fun h => hn ⟨h.1, h.2.1⟩
    rw [if_neg hn, if_neg hnot]

theorem owned_of_filter {r r' : PubSubRegistry} {p : Subscriber → Bool}
    (hr : r'.subscribers kind name = (r.subscribers kind name).filter p)
    (hp : ∀ s ∈ r.subscribers kind name, s.clientId = clientId → p s = true) :
    r'.owned kind name clientId = r.owned kind name clientId := by
  unfold PubSubRegistry.owned
  rw [hr, countP_filter]
  refine countP_congr fun s hs => ?_
  by_cases hid : s.clientId = clientId
  · simp [hid, hp s hs hid]
  · simp [hid]

theorem owned_subscribeAll (tx : Nat) (names : List Bytes) (session : Session) :
    (subscribeAll owner k tx names session r).2.2.owned kind name clientId =
      r.owned kind name clientId + if kind = k ∧ clientId = owner then names.count name else 0 := by
  induction names generalizing session r with
  | nil => simp [subscribeAll]
  | cons n names ih =>
    have hrest := ih (r.register k n owner tx).2
      ((session.setNames (insert n (session.names k)) k).recount)
    refine hrest.trans ?_
    rw [owned_register, count_cons]
    by_cases hk : kind = k ∧ clientId = owner
    · by_cases hn : name = n
      · simp [hk, hn]
        omega
      · simp [hk, hn, Ne.symm hn]
    · have hnot : ¬ (kind = k ∧ name = n ∧ clientId = owner) := fun h => hk ⟨h.1, h.2.2⟩
      rw [if_neg hk, if_neg hk, if_neg hnot]

theorem owned_unsubscribeAll (names : List Bytes) (session : Session) :
    (unsubscribeAll owner k names session r).2.2.owned kind name clientId =
      if kind = k ∧ clientId = owner ∧ name ∈ names then 0 else r.owned kind name clientId := by
  induction names generalizing session r with
  | nil => simp [unsubscribeAll]
  | cons n names ih =>
    have hrest := ih (r.unregister k n owner).2
      ((session.setNames ((session.names k).erase n) k).recount)
    refine hrest.trans ?_
    rw [owned_unregister]
    by_cases hk : kind = k ∧ clientId = owner
    · by_cases hn : name = n
      · simp [hk, hn]
      · simp [hk, hn]
    · have hnot : ¬ (kind = k ∧ name = n ∧ clientId = owner) := fun h => hk ⟨h.1, h.2.2⟩
      have hnot' (l : List Bytes) : ¬ (kind = k ∧ clientId = owner ∧ name ∈ l) :=
        fun h => hk ⟨h.1, h.2.1⟩
      rw [if_neg (hnot' _), if_neg hnot, if_neg (hnot' _)]

end

section

variable {kind k : SubscriptionKind} {clientId : UInt64}

theorem names_setNames (session : Session) (s : Finset Bytes) :
    (session.setNames s k).recount.names kind = if kind = k then s else session.names kind := by
  cases k <;> cases kind <;> rfl

theorem names_ensurePushChannel (session : Session) (fresh : Nat) :
    (session.ensurePushChannel fresh).2.names kind = session.names kind := by
  unfold Session.ensurePushChannel
  cases session.pushTx <;> cases kind <;> rfl

theorem names_subscribeAll (tx : Nat) (names : List Bytes) (session : Session)
    (r : PubSubRegistry) (name : Bytes) :
    name ∈ (subscribeAll clientId k tx names session r).2.1.names kind ↔
      name ∈ session.names kind ∨ kind = k ∧ name ∈ names := by
  induction names generalizing session r with
  | nil => simp [subscribeAll]
  | cons n names ih =>
    refine (ih _ _).trans ?_
    rw [names_setNames]
    by_cases hk : kind = k
    · subst hk
      simp only [if_true, Finset.mem_insert, mem_cons, true_and]
      tauto
    · simp [hk]

theorem names_unsubscribeAll (names : List Bytes) (session : Session) (r : PubSubRegistry)
    (name : Bytes) :
    name ∈ (unsubscribeAll clientId k names session r).2.1.names kind ↔
      name ∈ session.names kind ∧ ¬ (kind = k ∧ name ∈ names) := by
  induction names generalizing session r with
  | nil => simp [unsubscribeAll]
  | cons n names ih =>
    refine (ih _ _).trans ?_
    rw [names_setNames]
    by_cases hk : kind = k
    · subst hk
      simp only [if_true, Finset.mem_erase, mem_cons, true_and]
      tauto
    · simp [hk]

end

/-- The registry has the client once under each name of its session, and under no other. -/
def Client.Agrees (c : Client) (r : PubSubRegistry) : Prop :=
  ∀ kind name, r.owned kind name c.clientId = if name ∈ c.session.names kind then 1 else 0

def PubSubTurn.Fresh (session : Session) (t : PubSubTurn) : Prop :=
  ∀ kind names, t = .subscribe kind names → names.Nodup ∧ ∀ n ∈ names, n ∉ session.names kind

section

variable {c : Client} {r : PubSubRegistry} {alive : Nat → Bool} {fresh : Nat}

theorem PubSubTurn.owned_apply_of_ne (t : PubSubTurn) (session : Session) {owner other : UInt64}
    (hne : other ≠ owner) {kind : SubscriptionKind} {name : Bytes}
    (halive : ∀ s ∈ r.subscribers kind name, s.clientId = other → alive s.tx = true) :
    (t.apply owner alive fresh session r).2.owned kind name other = r.owned kind name other := by
  cases t with
  | nothing => rfl
  | subscribe k names =>
    refine (owned_subscribeAll r _ names _).trans ?_
    rw [if_neg fun h => hne h.2, Nat.add_zero]
  | unsubscribe k names =>
    refine (owned_unsubscribeAll r names _).trans ?_
    rw [if_neg fun h => hne h.2.1]
  | publish channel message =>
    obtain ⟨p, hp, hr⟩ := r.subscribers_publish alive channel message kind name
    exact owned_of_filter hr fun s hs hid => hp s (halive s hs hid)

theorem Client.agrees_subscribe_iff (hc : c.Agrees r) (k : SubscriptionKind) (names : List Bytes) :
    Client.Agrees { c with session := ((subscribe k names).apply c.clientId alive fresh
        c.session r).1 } ((subscribe k names).apply c.clientId alive fresh c.session r).2 ↔
      names.Nodup ∧ ∀ n ∈ names, n ∉ c.session.names k := by
  have howned (kind : SubscriptionKind) (name : Bytes) :
      ((subscribe k names).apply c.clientId alive fresh c.session r).2.owned kind name
        c.clientId = (if name ∈ c.session.names kind then 1 else 0) +
          if kind = k then names.count name else 0 := by
    refine (owned_subscribeAll r _ names _).trans ?_
    rw [hc kind name]
    simp
  have hnames (kind : SubscriptionKind) (name : Bytes) :
      name ∈ ((subscribe k names).apply c.clientId alive fresh c.session r).1.names
        kind ↔ name ∈ c.session.names kind ∨ kind = k ∧ name ∈ names := by
    refine (names_subscribeAll _ names _ r name).trans ?_
    rw [names_ensurePushChannel]
  constructor
  · intro h
    have hk (name : Bytes) := h k name
    simp only [howned, hnames, if_true, true_and] at hk
    refine ⟨nodup_iff_count_le_one.mpr fun n => ?_, fun n hn hin => ?_⟩
    · have := hk n
      split at this <;> split at this <;> omega
    · have := hk n
      have hpos := count_pos_iff.mpr hn
      rw [if_pos hin, if_pos (.inl hin)] at this
      omega
  · rintro ⟨hnodup, hnew⟩ kind name
    refine (howned kind name).trans ?_
    simp only [hnames]
    by_cases hk : kind = k ∧ name ∈ names
    · obtain ⟨rfl, hn⟩ := hk
      rw [if_neg (hnew name hn), if_pos rfl, if_pos (.inr ⟨rfl, hn⟩), count_eq_one_of_mem hnodup hn]
    · have hzero : (if kind = k then names.count name else 0) = 0 := by
        split
        · next heq => exact count_eq_zero.mpr fun hn => hk ⟨heq, hn⟩
        · rfl
      rw [hzero, Nat.add_zero]
      simp only [hk, or_false]

theorem Client.agrees_apply_iff (hc : c.Agrees r) (t : PubSubTurn)
    (halive : ∀ kind name, ∀ s ∈ r.subscribers kind name, s.clientId = c.clientId →
      alive s.tx = true) :
    Client.Agrees { c with session := (t.apply c.clientId alive fresh c.session r).1 }
        (t.apply c.clientId alive fresh c.session r).2 ↔ t.Fresh c.session := by
  cases t with
  | nothing => exact ⟨fun _ _ _ h => (by cases h), fun _ => hc⟩
  | subscribe k names =>
    refine (Client.agrees_subscribe_iff hc k names).trans ⟨fun h k' names' heq => ?_, fun h => ?_⟩
    · cases heq
      exact h
    · exact h k names rfl
  | unsubscribe k names =>
    refine ⟨fun _ _ _ h => (by cases h), fun _ kind name => ?_⟩
    refine (owned_unsubscribeAll r names _).trans ?_
    have hnames : name ∈ ((unsubscribe k names).apply c.clientId alive fresh c.session
        r).1.names kind ↔ name ∈ c.session.names kind ∧ ¬ (kind = k ∧ name ∈ names) := by
      refine (names_unsubscribeAll names _ r name).trans ?_
      rw [names_ensurePushChannel]
    simp only [hnames, hc kind name, true_and]
    by_cases hk : kind = k ∧ name ∈ names
    · simp [hk]
    · simp [hk]
  | publish channel message =>
    refine ⟨fun _ _ _ h => (by cases h), fun _ kind name => ?_⟩
    obtain ⟨p, hp, hr⟩ := r.subscribers_publish alive channel message kind name
    exact (owned_of_filter hr fun s hs hid => hp s (halive kind name s hs hid)).trans (hc kind name)

end

namespace Clients

variable {w : Clients} {h : Nat} {c : Client}

/-- The frames that one publication sends a connection: no more than one for the channel, if it is
subscribed to it, and no more than one for each pattern of its own that matches. -/
def DeliversOnce (w : Clients) (h : Nat) (c : Client) : Prop :=
  ∀ channel message,
    (w.registry.publish w.alive channel message).messages.countP (fun m => m.1 = h) ≤
        (if channel ∈ c.session.subscriptions then 1 else 0) ∧
      (w.registry.publish w.alive channel message).pmessages.filter (fun m => m.1 = h) ≤
        (c.session.psubscriptions.filter fun pattern => globMatch pattern channel).val.map
          fun pattern => (h, Frame.push [.bulk (txt "pmessage"), .bulk pattern, .bulk channel,
            .bulk message])

/-- Registry and session agree about a connection that is served and receives its messages, and a
publication sends it nothing twice. -/
def Agree (h : Nat) (w : Clients) : Prop :=
  ∀ c, w.served h = some c → c.receiving = true → c.Agrees w.registry ∧ w.DeliversOnce h c

def FreshNames (h : Nat) (w : Clients) : ClientEvent → Prop
  | .command g frame => g = h → ∀ c, w.served h = some c → c.receiving = true →
      (ofFrame c.session frame).Fresh c.session
  | _ => True

def KeepsSole (h : Nat) (w : Clients) : ClientEvent → Prop
  | .accept l => (h = w.accepted → ∀ g d, w.clients g = some d → d.clientId ≠ w.nextClientId l) ∧
      ∀ c, w.clients h = some c → c.clientId ≠ w.nextClientId l
  | _ => True

/-- No other connection has the connection's number, and no registration is left of connections
that are not there; before it is served it has no subscriptions. -/
structure Sole (h : Nat) (w : Clients) : Prop where
  enrolled : w.Enrolled
  alone : ∀ c, w.clients h = some c → ∀ g d, w.clients g = some d → d.clientId = c.clientId → g = h
  quiet : ∀ c, w.clients h = some c → c.serving = false → ∀ kind, c.session.names kind = ∅

theorem Enrolled.held_owned (hw : w.Enrolled) (hc : w.served h = some c)
    {kind : SubscriptionKind} {name : Bytes} {s : Subscriber}
    (hs : s ∈ w.registry.subscribers kind name) (htx : s.tx = h) : s.clientId = c.clientId := by
  obtain ⟨d, hd, hid⟩ := hw.registered kind name s hs
  rw [htx, hc] at hd
  cases hd
  exact hid.symm

theorem Enrolled.countP_live_le (hw : w.Enrolled) (hc : w.served h = some c)
    (kind : SubscriptionKind) (name : Bytes) :
    ((w.registry.subscribers kind name).filter fun s => w.alive s.tx).countP (fun s => s.tx = h) ≤
      w.registry.owned kind name c.clientId := by
  refine ((filter_sublist).countP_le).trans ?_
  refine countP_mono_left fun s hs htx => ?_
  exact decide_eq_true (hw.held_owned hc hs (of_decide_eq_true htx))

theorem Enrolled.pmessages_le (hw : w.Enrolled) (hc : w.served h = some c)
    (hagrees : c.Agrees w.registry) (pattern : Bytes) (f : Frame) :
    ((((w.registry.subscribers .pattern pattern).filter fun s => w.alive s.tx : List Subscriber) :
        Multiset Subscriber).map fun s => (s.tx, f)).filter (fun m => m.1 = h) ≤
      if pattern ∈ c.session.psubscriptions then {(h, f)} else 0 := by
  have hle := hw.countP_live_le hc .pattern pattern
  rw [hagrees] at hle
  set subs := (w.registry.subscribers .pattern pattern).filter fun s => w.alive s.tx
  have hown : ((subs : Multiset Subscriber).map fun s => (s.tx, f)).filter (fun m => m.1 = h) =
      Multiset.replicate (subs.countP fun s => s.tx = h) (h, f) := by
    refine Multiset.eq_replicate.mpr ⟨?_, fun m hm => ?_⟩
    · rw [← Multiset.countP_eq_card_filter, Multiset.map_coe, Multiset.coe_countP, countP_map]
      rfl
    · obtain ⟨hm, htx⟩ := Multiset.mem_filter.mp hm
      obtain ⟨s, -, rfl⟩ := Multiset.mem_map.mp hm
      exact Prod.ext htx rfl
  rw [hown]
  split
  · next hin =>
    rw [← Multiset.replicate_one]
    exact Multiset.replicate_mono _ (hle.trans (if_pos hin).le)
  · next hnot =>
    have hzero := hle.trans (if_neg hnot).le
    rw [Nat.le_zero.mp hzero]
    exact le_rfl

theorem Enrolled.deliversOnce (hw : w.Enrolled) (hc : w.served h = some c)
    (hagrees : c.Agrees w.registry) : w.DeliversOnce h c := by
  intro channel message
  constructor
  · have hle := hw.countP_live_le hc .channel channel
    rw [hagrees] at hle
    change (List.map _ _).countP _ ≤ _
    rw [countP_map]
    exact hle
  · set f := fun pattern =>
      Frame.push [.bulk (txt "pmessage"), .bulk pattern, .bulk channel, .bulk message]
    set matching := w.registry.patterns.retain fun pattern _ => globMatch pattern channel
    have hfound {e : Sigma fun _ : Bytes => List Subscriber} (he : e ∈ matching.entries) :
        w.registry.subscribers .pattern e.1 = e.2 ∧ globMatch e.1 channel = true := by
      have hlookup := Finmap.lookup_eq_some_iff.mpr he
      rw [HashMap.lookup_retain, filter_eq_some_iff] at hlookup
      exact ⟨congrArg (·.getD []) hlookup.1, hlookup.2⟩
    have hkeys : matching.keys.filter (· ∈ c.session.psubscriptions) ≤
        c.session.psubscriptions.filter fun pattern => globMatch pattern channel := by
      intro pattern hp
      obtain ⟨hp, hin⟩ := Finset.mem_filter.mp hp
      obtain ⟨e, he, rfl⟩ := Multiset.mem_map.mp hp
      exact Finset.mem_filter.mpr ⟨hin, (hfound he).2⟩
    calc (matching.entries.bind fun e => ((e.2.filter fun s => w.alive s.tx : List Subscriber) :
            Multiset Subscriber).map fun s => (s.tx, f e.1)).filter (fun m => m.1 = h)
        = matching.entries.bind fun e => (((e.2.filter fun s => w.alive s.tx : List Subscriber) :
            Multiset Subscriber).map fun s => (s.tx, f e.1)).filter (fun m => m.1 = h) :=
          Multiset.filter_bind ..
      _ ≤ matching.entries.bind fun e =>
            if e.1 ∈ c.session.psubscriptions then {(h, f e.1)} else 0 := by
          refine Multiset.sum_map_le_sum_map _ _ fun e he => ?_
          rw [← (hfound he).1]
          exact hw.pmessages_le hc hagrees e.1 (f e.1)
      _ = (matching.keys.filter (· ∈ c.session.psubscriptions)).val.map fun n => (h, f n) := by
          have hval : (matching.keys.filter (· ∈ c.session.psubscriptions)).val =
              (matching.entries.filter fun e => e.1 ∈ c.session.psubscriptions).map Sigma.fst :=
            Multiset.filter_map ..
          rw [hval, Multiset.map_map, ← Multiset.bind_singleton, Multiset.bind_filter]
          rfl
      _ ≤ (c.session.psubscriptions.filter fun pattern => globMatch pattern channel).val.map
            fun n => (h, f n) :=
          Multiset.map_le_map (Finset.val_le_iff.mpr hkeys)

theorem Sole.agree_iff (hw : w.Sole h) :
    Agree h w ↔ ∀ c, w.served h = some c → c.receiving = true → c.Agrees w.registry :=
  ⟨fun ha c hc hr => (ha c hc hr).1,
    fun ha c hc hr => ⟨ha c hc hr, hw.enrolled.deliversOnce hc (ha c hc hr)⟩⟩

theorem Sole.alive_of_owned (hw : w.Sole h) (hc : w.served h = some c)
    (hreceiving : c.receiving = true) {kind : SubscriptionKind} {name : Bytes} :
    ∀ s ∈ w.registry.subscribers kind name, s.clientId = c.clientId → w.alive s.tx = true := by
  intro s hs hid
  obtain ⟨d, hd, hdid⟩ := hw.enrolled.registered kind name s hs
  have hsame := hw.alone c (served_eq_some.mp hc).1 s.tx d (served_eq_some.mp hd).1 (hdid.trans hid)
  rw [hsame, alive, (served_eq_some.mp hc).1]
  exact hreceiving

theorem Sole.start : Sole h start := ⟨.start, fun _ hc => (by cases hc), fun _ hc => (by cases hc)⟩

theorem quiet_step (hw : ∀ c, w.clients h = some c → c.serving = false →
    ∀ kind, c.session.names kind = ∅) (e : ClientEvent) :
    ∀ c, (w.step e).clients h = some c → c.serving = false → ∀ kind, c.session.names kind = ∅ := by
  have hset (g : Nat) {d : Option Client}
      (hd : g = h → ∀ x, d = some x → x.serving = false → ∀ kind, x.session.names kind = ∅) :
      ∀ c, (w.set g d).clients h = some c → c.serving = false →
        ∀ kind, c.session.names kind = ∅ := by
    intro c hc
    rw [set_clients] at hc
    split at hc
    · next hg => exact hd hg.symm c hc
    · exact hw c hc
  cases e with
  | accept l =>
    intro c hc hserving kind
    have hc' := (accept_clients w l h).symm.trans hc
    split at hc'
    · cases hc'
      cases l <;> cases kind <;> rfl
    · exact hw c hc' hserving kind
  | handshake g ok =>
    change ∀ c, (w.handshake g ok).clients h = some c → _
    unfold handshake
    split
    · exact hw
    · refine hset g fun _ x hx hserving => ?_
      cases ok with
      | true =>
        cases hx
        cases hserving
      | false => cases hx
  | command g frame =>
    change ∀ c, (w.command g frame).clients h = some c → _
    unfold command
    split
    · exact hw
    · next d hd =>
      refine hset g fun _ x hx hserving => ?_
      cases hx
      rw [(served_eq_some.mp hd).2] at hserving
      cases hserving
  | replicated channel message => exact hw
  | hangUp g =>
    refine hset g fun hg x hx hserving => ?_
    obtain ⟨d, hd, rfl⟩ := map_eq_some_iff.mp hx
    exact hw d (hg ▸ hd) hserving
  | close g =>
    change ∀ c, (w.close g).clients h = some c → _
    unfold close
    split
    · exact hw
    · exact hset g fun _ x hx => by cases hx

theorem Sole.step (hw : w.Sole h) {e : ClientEvent} (he : KeepsSole h w e) : (w.step e).Sole h := by
  refine ⟨hw.enrolled.step e, fun c hc g d hd hid => ?_, quiet_step hw.quiet e⟩
  rcases clients_step hc with ⟨c', hc', hcid⟩ | ⟨l, rfl, hh, hcid⟩
  · rcases clients_step hd with ⟨d', hd', hdid⟩ | ⟨l, rfl, -, hdid⟩
    · exact hw.alone c' hc' g d' hd' (hdid.trans (hid.trans hcid.symm))
    · exact absurd (hcid.trans (hid.symm.trans hdid)) (he.2 c' hc')
  · rcases clients_step hd with ⟨d', hd', hdid⟩ | ⟨l', -, hg, -⟩
    · exact absurd (hdid.trans (hid.trans hcid)) (he.1 hh g d' hd')
    · exact hg.trans hh.symm

theorem Enrolled.owned_eq_zero (hw : w.Enrolled) {clientId : UInt64}
    (hid : ∀ g d, w.served g = some d → d.clientId ≠ clientId) (kind : SubscriptionKind)
    (name : Bytes) : w.registry.owned kind name clientId = 0 := by
  refine countP_eq_zero.mpr fun s hs => ?_
  obtain ⟨c, hc, hcid⟩ := hw.registered kind name s hs
  have hne := hid s.tx c hc
  rw [hcid] at hne
  simpa using hne

theorem Client.agrees_of_fresh {r : PubSubRegistry}
    (hnames : ∀ kind, c.session.names kind = ∅)
    (hzero : ∀ kind name, r.owned kind name c.clientId = 0) : c.Agrees r := by
  intro kind name
  rw [hzero, hnames, if_neg (Finset.notMem_empty name)]

def Agreeing (h : Nat) (w : Clients) : Prop :=
  ∀ c, w.served h = some c → c.receiving = true → c.Agrees w.registry

theorem Agreeing.accept (ha : Agreeing h w) (hw : w.Sole h) {l : Listener}
    (hl : KeepsSole h w (.accept l)) : Agreeing h (w.accept l) := by
  intro c hc hreceiving
  obtain ⟨hc, hserving⟩ := served_eq_some.mp hc
  rw [accept_clients] at hc
  split at hc
  · next hh =>
    cases hc
    refine Client.agrees_of_fresh (fun kind => by cases l <;> cases kind <;> rfl) ?_
    exact hw.enrolled.owned_eq_zero fun g d hd => hl.1 hh g d (served_eq_some.mp hd).1
  · exact ha c (served_eq_some.mpr ⟨hc, hserving⟩) hreceiving

theorem Agreeing.handshake (ha : Agreeing h w) (hw : w.Sole h) (g : Nat) (ok : Bool) :
    Agreeing h (w.handshake g ok) := by
  unfold Clients.handshake
  split
  · exact ha
  · next d hd =>
    obtain ⟨hd, hwaiting⟩ := filter_eq_some_iff.mp hd
    have hnot : d.serving = false := by simpa using hwaiting
    intro c hc hreceiving
    rw [served_set] at hc
    split at hc
    · next hg =>
      subst hg
      cases ok with
      | false => cases hc
      | true =>
        cases hc
        refine Client.agrees_of_fresh (hw.quiet d hd hnot) ?_
        refine hw.enrolled.owned_eq_zero fun g' d' hd' hid => ?_
        obtain ⟨hd', hserving⟩ := served_eq_some.mp hd'
        obtain rfl := hw.alone d hd g' d' hd' hid
        cases hd'.symm.trans hd
        rw [hnot] at hserving
        cases hserving
    · exact ha c hc hreceiving

theorem agreeing_command_iff (ha : Agreeing h w) (hw : w.Sole h) (g : Nat) (frame : Frame) :
    Agreeing h (w.command g frame) ↔ FreshNames h w (.command g frame) := by
  cases hd : w.served g with
  | none =>
    have hsame : w.command g frame = w := by rw [Clients.command, hd]
    rw [hsame]
    refine ⟨fun _ hg c hc => ?_, fun _ => ha⟩
    rw [← hg, hd] at hc
    cases hc
  | some d =>
    let t := ofFrame d.session frame
    let o := t.apply d.clientId w.alive g d.session w.registry
    have hstep : w.command g frame =
        { w.set g (some { d with session := o.1 }) with registry := o.2 } := by
      have happly := interceptForPubsub_apply d.clientId w.alive g d.session w.registry frame
      simp only [Clients.command, hd]
      rw [← congrArg Prod.fst happly, ← congrArg Prod.snd happly]
    have hserved : (w.command g frame).served h =
        if h = g then some { d with session := o.1 } else w.served h := by
      rw [hstep]
      refine (served_set w g h _).trans ?_
      rw [filter_some, if_pos (served_eq_some.mp hd).2]
    have hregistry : (w.command g frame).registry = o.2 := by rw [hstep]
    unfold Agreeing
    rw [hserved, hregistry]
    by_cases hg : h = g
    · subst hg
      rw [if_pos rfl]
      have hown (hreceiving : d.receiving = true) :
          Client.Agrees { d with session := o.1 } o.2 ↔ t.Fresh d.session :=
        Client.agrees_apply_iff (ha d hd hreceiving) t fun _ _ => hw.alive_of_owned hd hreceiving
      constructor
      · intro hagrees _ c hc hreceiving
        cases hd.symm.trans hc
        exact (hown hreceiving).mp (hagrees _ rfl hreceiving)
      · intro hfresh c hc hreceiving
        cases hc
        exact (hown hreceiving).mpr (hfresh rfl d hd hreceiving)
    · rw [if_neg hg]
      refine iff_of_true (fun c hc hreceiving kind name => ?_) fun heq => absurd heq.symm hg
      have hid : c.clientId ≠ d.clientId := fun heq =>
        hg (hw.alone c (served_eq_some.mp hc).1 g d (served_eq_some.mp hd).1 heq.symm).symm
      rw [t.owned_apply_of_ne d.session hid (hw.alive_of_owned hc hreceiving)]
      exact ha c hc hreceiving kind name

theorem agreeing_step_iff (ha : Agreeing h w) (hw : w.Sole h) {e : ClientEvent}
    (he : KeepsSole h w e) : Agreeing h (w.step e) ↔ FreshNames h w e := by
  cases e with
  | accept l => exact iff_of_true (ha.accept hw he) trivial
  | handshake g ok => exact iff_of_true (ha.handshake hw g ok) trivial
  | command g frame => exact agreeing_command_iff ha hw g frame
  | replicated channel message =>
    refine iff_of_true (fun c hc hreceiving kind name => ?_) trivial
    obtain ⟨p, hp, hr⟩ := w.registry.subscribers_publish w.alive channel message kind name
    have hkept := owned_of_filter hr fun s hs hid =>
      hp s (hw.alive_of_owned (c := c) hc hreceiving s hs hid)
    exact hkept.trans (ha c hc hreceiving kind name)
  | hangUp g =>
    refine iff_of_true (fun c hc hreceiving => ?_) trivial
    have hc' := (served_set w g h _).symm.trans hc
    split at hc'
    · obtain ⟨hc', -⟩ := filter_eq_some_iff.mp hc'
      obtain ⟨d, -, rfl⟩ := map_eq_some_iff.mp hc'
      cases hreceiving
    · exact ha c hc' hreceiving
  | close g =>
    refine iff_of_true ?_ trivial
    change Agreeing h (w.close g)
    unfold close
    split
    · exact ha
    · next d hd =>
      intro c hc hreceiving kind name
      have hc' := (served_set w g h _).symm.trans hc
      split at hc'
      · cases hc'
      · next hne =>
        have hid : c.clientId ≠ d.clientId := fun heq =>
          hne (hw.alone c (served_eq_some.mp hc').1 g d (served_eq_some.mp hd).1 heq.symm).symm
        have hkept := owned_of_filter (w.registry.subscribers_removeAll d.clientId kind name)
          fun s _ (hs : s.clientId = c.clientId) => decide_eq_true (hs ▸ hid)
        exact hkept.trans (ha c hc' hreceiving kind name)

/-- Over any run of a server in which a connection's number stays its own: its session and the
registry agree all along exactly when no command of it subscribes to a name it has, or to one
twice. -/
theorem agree_throughout_iff (h : Nat) (events : List ClientEvent)
    (hsole : EachStep step (KeepsSole h) start events) :
    Throughout step (Agree h) start events ↔ EachStep step (FreshNames h) start events := by
  refine throughout_iff (J := Sole h) (fun w e hw he => hw.step he) (fun w e hw he ha => ?_)
    Sole.start ?_ hsole
  · rw [(hw.step he).agree_iff]
    exact agreeing_step_iff (hw.agree_iff.mp ha) hw he
  · exact fun c hc => by cases hc

def oneFrame (frame : Frame) : List ClientEvent := [.accept .resp, .command 0 frame]

theorem keepsSole_oneFrame (frame : Frame) :
    EachStep step (KeepsSole 0) start (oneFrame frame) := by
  refine ⟨⟨fun _ g d hd => ?_, fun c hc => ?_⟩, trivial, trivial⟩
  · cases hd
  · cases hc

theorem agree_throughout_subscribeNews :
    Throughout step (Agree 0) start (oneFrame subscribeNews) := by
  refine (agree_throughout_iff 0 (oneFrame subscribeNews)
    (keepsSole_oneFrame subscribeNews)).mpr ⟨trivial, ?_, trivial⟩
  intro _ c hc _ kind names hturn
  obtain rfl : c = ⟨1, true, true, .new⟩ := (some.inj hc).symm
  have hnews : ofFrame .new subscribeNews = .subscribe .channel [txt "news"] := by
    decide
  cases hnews.symm.trans hturn
  exact ⟨by decide, by decide⟩

def subscribeTwice : Frame := .command [txt "SUBSCRIBE", txt "news", txt "news"]

theorem subscribeTwice_disagrees :
    EachStep step (KeepsSole 0) start (oneFrame subscribeTwice) ∧
      ¬ Throughout step (Agree 0) start (oneFrame subscribeTwice) := by
  refine ⟨keepsSole_oneFrame subscribeTwice, fun h => ?_⟩
  let after : Clients := (start.step (.accept .resp)).step (.command 0 subscribeTwice)
  have hagree : Agree 0 after := h.2.2
  have hserved : (after.served 0).map Client.clientId = some 1 := by decide
  have hreceiving : (after.served 0).map Client.receiving = some true := by decide
  have hnamed : (after.served 0).map (fun c => decide (txt "news" ∈ c.session.names .channel)) =
      some true := by decide
  have htwice : after.registry.owned .channel (txt "news") 1 = 2 := by decide
  cases hc : after.served 0 with
  | none =>
    rw [hc] at hserved
    cases hserved
  | some c =>
    rw [hc] at hserved hreceiving hnamed
    have hone := (hagree c hc (some.inj hreceiving)).1 .channel (txt "news")
    rw [some.inj hserved, htwice, if_pos (of_decide_eq_true (some.inj hnamed))] at hone
    cases hone

end Clients

end RocketMem
