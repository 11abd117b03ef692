import RocketMem.Server.PubSub

namespace RocketMem

open Function

inductive SubscriptionVerb where
  | subscribe
  | unsubscribe
  deriving DecidableEq, Repr

namespace SubscriptionVerb

def command : SubscriptionVerb → SubscriptionKind → Bytes
  | subscribe, .channel => txt "SUBSCRIBE"
  | unsubscribe, .channel => txt "UNSUBSCRIBE"
  | subscribe, .pattern => txt "PSUBSCRIBE"
  | unsubscribe, .pattern => txt "PUNSUBSCRIBE"

def edit : SubscriptionVerb → Bytes → Finset Bytes → Finset Bytes
  | subscribe, name, names => insert name names
  | unsubscribe, name, names => names.erase name

def targets (verb : SubscriptionVerb) (kind : SubscriptionKind) (session : Session)
    (args : List Frame) : List Bytes :=
  if session.isRmp then []
  else match verb with
    | subscribe => bulkArgs args
    | unsubscribe => unsubscribeTargets kind session args

end SubscriptionVerb

abbrev SubscribedNames := SubscriptionKind → Finset Bytes

namespace SubscribedNames

def total (names : SubscribedNames) : Nat := (names .channel).card + (names .pattern).card

def runningTotals (verb : SubscriptionVerb) (kind : SubscriptionKind) :
    List Bytes → SubscribedNames → List Nat
  | [], _ => []
  | name :: rest, names =>
    let names : SubscribedNames := update names kind (verb.edit name (names kind))
    total names :: runningTotals verb kind rest names

end SubscribedNames

def expectedCounts (verb : SubscriptionVerb) (kind : SubscriptionKind) (session : Session)
    (args : List Frame) : List Nat :=
  if verb = .unsubscribe ∧ session.isRmp = false ∧ verb.targets kind session args = [] then
    [SubscribedNames.total session.names]
  else SubscribedNames.runningTotals verb kind (verb.targets kind session args) session.names

def ackCount : Frame → Option Int
  | .push [.bulk _, _, .integer n] => some n
  | _ => none

theorem ackCount_acknowledgement (word : Bytes) (name : Frame) (n : Nat) :
    ackCount (acknowledgement word name n) = some (n : Int) := rfl

def PubSubOutcome.ackCounts (o : PubSubOutcome) : List Int :=
  (o.reply.toList ++ o.pushed.map Prod.snd).filterMap ackCount

structure PubSubOutcome.CountsRight (o : PubSubOutcome) (expected : List Nat) : Prop where
  acks : o.ackCounts = expected.map Nat.cast
  stored : o.session.subscriptionCount = o.session.totalSubscriptionCount

section

variable (clientId : UInt64)

theorem Session.names_setNames (session : Session) (kind : SubscriptionKind) (s : Finset Bytes) :
    (session.setNames s kind).recount.names = update session.names kind s := by
  funext k
  cases kind <;> cases k <;> rfl

theorem Session.names_ensurePushChannel (session : Session) (fresh : Nat) :
    (session.ensurePushChannel fresh).2.names = session.names ∧
      (session.ensurePushChannel fresh).2.subscriptionCount = session.subscriptionCount := by
  unfold Session.ensurePushChannel
  cases session.pushTx <;> exact ⟨rfl, rfl⟩

def SubscriptionVerb.loop (verb : SubscriptionVerb) (kind : SubscriptionKind) (tx : Nat)
    (names : List Bytes) (session : Session) (registry : PubSubRegistry) :
    List Frame × Session × PubSubRegistry :=
  match verb with
  | .subscribe => subscribeAll clientId kind tx names session registry
  | .unsubscribe => unsubscribeAll clientId kind names session registry

theorem SubscriptionVerb.loop_cons (verb : SubscriptionVerb) (kind : SubscriptionKind) (tx : Nat)
    (name : Bytes) (rest : List Bytes) (session : Session) (registry : PubSubRegistry) :
    ∃ word registry', verb.loop clientId kind tx (name :: rest) session registry =
      (let s := (session.setNames (verb.edit name (session.names kind)) kind).recount
      (acknowledgement word (.bulk name) s.totalSubscriptionCount ::
        (verb.loop clientId kind tx rest s registry').1,
        (verb.loop clientId kind tx rest s registry').2)) := by
  cases verb with
  | subscribe => exact ⟨kind.subscribeWord, _, rfl⟩
  | unsubscribe => exact ⟨kind.unsubscribeWord, _, rfl⟩

theorem SubscriptionVerb.loop_counts (verb : SubscriptionVerb) (kind : SubscriptionKind) (tx : Nat)
    (names : List Bytes) (session : Session) (registry : PubSubRegistry) :
    let r := verb.loop clientId kind tx names session registry
    r.1.filterMap ackCount =
        (SubscribedNames.runningTotals verb kind names session.names).map Nat.cast ∧
      r.1.length = names.length ∧
      (names ≠ [] ∨ session.subscriptionCount = session.totalSubscriptionCount →
        r.2.1.subscriptionCount = r.2.1.totalSubscriptionCount) ∧
      (names = [] → r.2.1 = session) := by
  induction names generalizing session registry with
  | nil =>
    cases verb with
    | subscribe | unsubscribe =>
      exact ⟨rfl, rfl, fun h => h.resolve_left (fun hne => hne rfl), fun _ => rfl⟩
  | cons name rest ih =>
    obtain ⟨word, registry', hloop⟩ := verb.loop_cons clientId kind tx name rest session registry
    obtain ⟨hacks, hlen, hstored, -⟩ :=
      ih (session.setNames (verb.edit name (session.names kind)) kind).recount registry'
    rw [Session.names_setNames] at hacks
    rw [hloop]
    refine ⟨?_, congrArg Nat.succ hlen, fun _ => hstored (.inr rfl), fun h => absurd h (by simp)⟩
    have htotal : (session.setNames (verb.edit name (session.names kind))
        kind).recount.totalSubscriptionCount = SubscribedNames.total
          (update session.names kind (verb.edit name (session.names kind))) := by
      rw [← Session.names_setNames]
      rfl
    rw [List.filterMap_cons, ackCount_acknowledgement, htotal, hacks,
      SubscribedNames.runningTotals, List.map_cons]

end

section

variable (clientId : UInt64) (alive : Nat → Bool) (fresh : Nat) (session : Session)
  (registry : PubSubRegistry) (args : List Frame) (verb : SubscriptionVerb)
  (kind : SubscriptionKind)

theorem acknowledged_counts (tx : Nat) (r : List Frame × Session × PubSubRegistry) :
    (acknowledged tx r).ackCounts = r.1.filterMap ackCount := by
  have hall : (acknowledged tx r).reply.toList ++ (acknowledged tx r).pushed.map Prod.snd = r.1 := by
    unfold acknowledged
    cases r.1 with
    | nil => rfl
    | cons f fs => simp [List.map_map, comp_def]
  rw [PubSubOutcome.ackCounts, hall]

theorem intercept_eq {raw : Bytes} (hraw : upperName raw = some (verb.command kind))
    (hresp : session.isRmp = false) :
    interceptForPubsub clientId alive fresh session registry (.array (.bulk raw :: args)) =
      match verb with
      | .subscribe => handleSubscribe clientId kind fresh session registry args
      | .unsubscribe => handleUnsubscribe clientId kind fresh session registry args := by
  unfold interceptForPubsub
  simp only [hraw, hresp]
  cases verb <;> cases kind <;> rfl

theorem targets_of_resp (hresp : session.isRmp = false) :
    verb.targets kind session args = match verb with
      | .subscribe => bulkArgs args
      | .unsubscribe => unsubscribeTargets kind session args := by
  unfold SubscriptionVerb.targets
  rw [hresp]
  rfl

theorem countsRight_nil {o : PubSubOutcome} (hacks : o.ackCounts = [])
    (hcount : o.session.subscriptionCount = session.subscriptionCount)
    (htotal : o.session.totalSubscriptionCount = session.totalSubscriptionCount) :
    o.CountsRight [] ↔ session.subscriptionCount = session.totalSubscriptionCount := by
  rw [← hcount, ← htotal]
  exact ⟨fun h => h.stored, fun h => ⟨hacks, h⟩⟩

theorem Session.total_ensurePushChannel :
    (session.ensurePushChannel fresh).2.totalSubscriptionCount =
      session.totalSubscriptionCount := by
  have hnames := (session.names_ensurePushChannel fresh).1
  exact congrArg SubscribedNames.total hnames

theorem countsRight_of_loop (tx : Nat) {names : List Bytes} {s : Session}
    (hnames : s.names = session.names) (hne : names ≠ []) :
    (acknowledged tx (verb.loop clientId kind tx names s registry)).CountsRight
      (SubscribedNames.runningTotals verb kind names session.names) := by
  obtain ⟨hacks, -, hstored, -⟩ := verb.loop_counts clientId kind tx names s registry
  refine ⟨?_, hstored (.inl hne)⟩
  rw [acknowledged_counts, hacks, hnames]

theorem handleSubscribe_of_names (hne : bulkArgs args ≠ []) :
    handleSubscribe clientId kind fresh session registry args =
      acknowledged (session.ensurePushChannel fresh).1
        (SubscriptionVerb.subscribe.loop clientId kind (session.ensurePushChannel fresh).1
          (bulkArgs args) (session.ensurePushChannel fresh).2 registry) := by
  have hargs : args ≠ [] := by
    rintro rfl
    exact hne rfl
  rw [handleSubscribe, if_neg hargs]
  rfl

theorem handleSubscribe_of_none (hnone : bulkArgs args = []) :
    (handleSubscribe clientId kind fresh session registry args).CountsRight [] ↔
      session.subscriptionCount = session.totalSubscriptionCount := by
  unfold handleSubscribe
  split_ifs
  · exact countsRight_nil session rfl rfl rfl
  · refine countsRight_nil session ?_ ?_ ?_
    · rw [acknowledged_counts, hnone]
      rfl
    · rw [hnone]
      exact (session.names_ensurePushChannel fresh).2
    · rw [hnone]
      exact session.total_ensurePushChannel fresh

theorem handleUnsubscribe_of_names (hne : unsubscribeTargets kind session args ≠ []) :
    handleUnsubscribe clientId kind fresh session registry args =
      acknowledged (session.ensurePushChannel fresh).1
        (SubscriptionVerb.unsubscribe.loop clientId kind (session.ensurePushChannel fresh).1
          (unsubscribeTargets kind session args) (session.ensurePushChannel fresh).2 registry) := by
  have hlen := (SubscriptionVerb.unsubscribe.loop_counts clientId kind
    (session.ensurePushChannel fresh).1 (unsubscribeTargets kind session args)
    (session.ensurePushChannel fresh).2 registry).2.1
  have hacked : (unsubscribeAll clientId kind (unsubscribeTargets kind session args)
      (session.ensurePushChannel fresh).2 registry).1 ≠ [] := by
    intro hnil
    rw [SubscriptionVerb.loop, hnil] at hlen
    exact hne (List.length_eq_zero_iff.mp hlen.symm)
  unfold handleUnsubscribe
  dsimp only
  rw [unsubscribeTargets_ensurePushChannel, if_neg hacked]
  rfl

theorem handleUnsubscribe_fallback (hnone : unsubscribeTargets kind session args = []) :
    handleUnsubscribe clientId kind fresh session registry args =
      acknowledged (session.ensurePushChannel fresh).1
        ([acknowledgement kind.unsubscribeWord .null 0], (session.ensurePushChannel fresh).2,
          registry) := by
  unfold handleUnsubscribe
  dsimp only
  rw [unsubscribeTargets_ensurePushChannel, hnone]
  rfl

theorem handleUnsubscribe_of_none (hnone : unsubscribeTargets kind session args = []) :
    (handleUnsubscribe clientId kind fresh session registry args).CountsRight
        [session.totalSubscriptionCount] ↔
      session.subscriptionCount = session.totalSubscriptionCount ∧
        session.totalSubscriptionCount = 0 := by
  have houtcome := handleUnsubscribe_fallback clientId fresh session registry args kind hnone
  have hcount := (session.names_ensurePushChannel fresh).2
  have htotal := session.total_ensurePushChannel fresh
  have hacks : (handleUnsubscribe clientId kind fresh session registry args).ackCounts = [0] := by
    rw [houtcome, acknowledged_counts]
    rfl
  rw [← hcount, ← htotal]
  constructor
  · intro h
    have hzero := h.acks
    rw [hacks, List.map_cons, List.map_nil, List.cons.injEq] at hzero
    have hstored := h.stored
    rw [houtcome] at hstored
    exact ⟨hstored, by omega⟩
  · rintro ⟨hstored, hzero⟩
    refine ⟨?_, ?_⟩
    · rw [hacks, hzero]
      rfl
    · rw [houtcome]
      exact hstored

/-- The acknowledgements count right, unless the command acts on no name and either the stored count
was wrong before or an unsubscription answers 0 for subscriptions of the other kind. -/
theorem acknowledgements_count_iff (clientId : UInt64) (alive : Nat → Bool) (fresh : Nat)
    (session : Session) (registry : PubSubRegistry) (verb : SubscriptionVerb)
    (kind : SubscriptionKind) (raw : Bytes) (hraw : upperName raw = some (verb.command kind))
    (args : List Frame) :
    (interceptForPubsub clientId alive fresh session registry
        (.array (.bulk raw :: args))).CountsRight (expectedCounts verb kind session args) ↔
      (verb.targets kind session args = [] →
        session.subscriptionCount = session.totalSubscriptionCount ∧
        (verb = .unsubscribe → session.isRmp = false → session.totalSubscriptionCount = 0)) := by
  cases hrmp : session.isRmp with
  | true =>
    have hrefused : interceptForPubsub clientId alive fresh session registry
        (.array (.bulk raw :: args)) =
          ⟨some (.error (txt "ERR pub/sub is not supported over RMP")), session, registry, [], 0,
            none⟩ := by
      have hlisted : verb.command kind ∈ pubsubCommands := by
        cases verb <;> cases kind <;> decide
      unfold interceptForPubsub
      simp only [hraw, hrmp, hlisted, and_self, if_true]
    have htargets : verb.targets kind session args = [] := if_pos hrmp
    have hexpected : expectedCounts verb kind session args = [] := by
      rw [expectedCounts, htargets, hrmp, if_neg (by simp)]
      rfl
    rw [hrefused, hexpected, htargets, countsRight_nil session rfl rfl rfl]
    simp
  | false =>
    rw [intercept_eq clientId alive fresh session registry args verb kind hraw hrmp]
    have htargets := targets_of_resp session args verb kind hrmp
    have hnames := (session.names_ensurePushChannel fresh).1
    by_cases hnone : verb.targets kind session args = []
    · cases verb with
      | subscribe =>
        have hexpected : expectedCounts .subscribe kind session args = [] := by
          rw [expectedCounts, hnone, if_neg (by simp)]
          rfl
        rw [htargets] at hnone
        rw [hexpected, htargets, hnone, handleSubscribe_of_none _ _ _ _ _ _ hnone]
        simp
      | unsubscribe =>
        have hexpected : expectedCounts .unsubscribe kind session args =
            [session.totalSubscriptionCount] := if_pos ⟨rfl, hrmp, hnone⟩
        rw [htargets] at hnone
        rw [hexpected, htargets, hnone, handleUnsubscribe_of_none _ _ _ _ _ _ hnone]
        simp
    · have hexpected : expectedCounts verb kind session args =
          SubscribedNames.runningTotals verb kind (verb.targets kind session args)
            session.names := if_neg fun h => hnone h.2.2
      have hright := countsRight_of_loop clientId session registry verb kind
        (session.ensurePushChannel fresh).1 hnames hnone
      refine iff_of_true ?_ fun h => absurd h hnone
      rw [hexpected]
      cases verb with
      | subscribe =>
        rw [htargets] at hnone hright ⊢
        rw [handleSubscribe_of_names _ _ _ _ _ _ hnone]
        exact hright
      | unsubscribe =>
        rw [htargets] at hnone hright ⊢
        rw [handleUnsubscribe_of_names _ _ _ _ _ _ hnone]
        exact hright

end

theorem acknowledgements_count_subscribe :
    (interceptForPubsub 1 (fun _ => true) 0 Session.new .empty
      (.array [.bulk (txt "subscribe"), .bulk (txt "c")])).CountsRight
        (expectedCounts .subscribe .channel Session.new [.bulk (txt "c")]) :=
  (acknowledgements_count_iff 1 (fun _ => true) 0 Session.new .empty .subscribe .channel
    (txt "subscribe") (by decide) [.bulk (txt "c")]).mpr fun h => absurd h (by decide)

def patternSession : Session :=
  { Session.new with psubscriptions := {txt "p"}, subscriptionCount := 1 }

/-- UNSUBSCRIBE on it is acknowledged with 0, and the pattern is still subscribed. -/
theorem unsubscribe_miscounts :
    patternSession.subscriptionCount = patternSession.totalSubscriptionCount ∧
      (interceptForPubsub 1 (fun _ => true) 0 patternSession .empty
        (.array [.bulk (txt "UNSUBSCRIBE")])).ackCounts = [0] ∧
      (interceptForPubsub 1 (fun _ => true) 0 patternSession .empty
        (.array [.bulk (txt "UNSUBSCRIBE")])).session.totalSubscriptionCount = 1 ∧
      ¬ (interceptForPubsub 1 (fun _ => true) 0 patternSession .empty
        (.array [.bulk (txt "UNSUBSCRIBE")])).CountsRight
          (expectedCounts .unsubscribe .channel patternSession []) := by
  have hnone : unsubscribeTargets .channel patternSession [] = [] := Finset.sort_empty _
  have hraw : upperName (txt "UNSUBSCRIBE") =
      some (SubscriptionVerb.unsubscribe.command .channel) := by decide
  have hexpected : expectedCounts .unsubscribe .channel patternSession [] =
      [patternSession.totalSubscriptionCount] := if_pos ⟨rfl, rfl, hnone⟩
  rw [intercept_eq 1 (fun _ => true) 0 patternSession .empty [] .unsubscribe .channel hraw rfl,
    hexpected, handleUnsubscribe_of_none _ _ _ _ _ _ hnone]
  dsimp only
  rw [handleUnsubscribe_fallback _ _ _ _ _ _ hnone]
  exact ⟨rfl, rfl, rfl, by decide⟩

end RocketMem
