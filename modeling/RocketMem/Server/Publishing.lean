import RocketMem.Server.PubSub

namespace RocketMem

open List

/-- What `publish` has done so far: the sends it made, to open and to closed receivers, and its
count of those that arrived. -/
structure Sending where
  sent : List (Nat × Frame)
  delivered : Nat

section

variable (alive : Nat → Bool)

/-- The inner `retain`: the frame is sent to each registration, and those with a receiver stay. -/
def retainSubscribers (frame : Frame) : List Subscriber → Sending → List Subscriber × Sending
  | [], out => ([], out)
  | s :: subs, out =>
    let arrived := alive s.tx
    let out : Sending :=
      ⟨out.sent ++ [(s.tx, frame)], if arrived then out.delivered + 1 else out.delivered⟩
    let rest := retainSubscribers frame subs out
    (if arrived then s :: rest.1 else rest.1, rest.2)

def messageFrame (channel message : Bytes) : Frame :=
  .push [.bulk (txt "message"), .bulk channel, .bulk message]

def pmessageFrame (pattern channel message : Bytes) : Frame :=
  .push [.bulk (txt "pmessage"), .bulk pattern, .bulk channel, .bulk message]

def publishToChannel (channel message : Bytes) (channels : HashMap Bytes (List Subscriber))
    (out : Sending) : HashMap Bytes (List Subscriber) × Sending :=
  match channels.lookup channel with
  | none => (channels, out)
  | some subs =>
    let r := retainSubscribers alive (messageFrame channel message) subs out
    (if r.1.isEmpty then channels.erase channel else channels.insert channel r.1, r.2)

/-- The closure of the outer `retain`, for one pattern: whether it stays, and with what. -/
def retainPattern (channel message pattern : Bytes) (subs : List Subscriber) (out : Sending) :
    Option (List Subscriber) × Sending :=
  let r := if globMatch pattern channel then
      retainSubscribers alive (pmessageFrame pattern channel message) subs out
    else (subs, out)
  (if !r.1.isEmpty || !globMatch pattern channel then some r.1 else none, r.2)

/-- The outer `retain`, over the patterns in the order in which the table is walked. -/
def publishToPatterns (channel message : Bytes) :
    List Bytes → HashMap Bytes (List Subscriber) → Sending →
      HashMap Bytes (List Subscriber) × Sending
  | [], patterns, out => (patterns, out)
  | pattern :: order, patterns, out =>
    match patterns.lookup pattern with
    | none => publishToPatterns channel message order patterns out
    | some subs =>
      let r := retainPattern alive channel message pattern subs out
      publishToPatterns channel message order
        (match r.1 with
          | none => patterns.erase pattern
          | some subs => patterns.insert pattern subs) r.2

/-- `publish`, loop by loop; `order` is the order in which the patterns are walked. -/
def PubSubRegistry.publishLoops (order : List Bytes) (r : PubSubRegistry) (channel message : Bytes) :
    PubSubRegistry × Sending :=
  let onChannel := publishToChannel alive channel message r.channels ⟨[], 0⟩
  let onPatterns := publishToPatterns alive channel message order r.patterns onChannel.2
  (⟨onChannel.1, onPatterns.1⟩, onPatterns.2)

end

section

variable (alive : Nat → Bool)

def Sending.add (out : Sending) (sends : List (Nat × Frame)) : Sending :=
  ⟨out.sent ++ sends, out.delivered + (sends.filter fun s => alive s.1).length⟩

def sendsTo (frame : Frame) (subs : List Subscriber) : List (Nat × Frame) :=
  subs.map fun s => (s.tx, frame)

theorem Sending.add_nil (out : Sending) : out.add alive [] = out := by
  rw [add, append_nil]
  rfl

theorem Sending.add_add (out : Sending) (xs ys : List (Nat × Frame)) :
    (out.add alive xs).add alive ys = out.add alive (xs ++ ys) := by
  simp only [add, append_assoc, filter_append, length_append, Nat.add_assoc]

theorem retainSubscribers_eq (frame : Frame) (subs : List Subscriber) (out : Sending) :
    retainSubscribers alive frame subs out =
      (subs.filter fun s => alive s.tx, out.add alive (sendsTo frame subs)) := by
  induction subs generalizing out with
  | nil => rw [retainSubscribers, sendsTo, map_nil, Sending.add_nil, filter_nil]
  | cons s subs ih =>
    have hone : (⟨out.sent ++ [(s.tx, frame)],
        if alive s.tx then out.delivered + 1 else out.delivered⟩ : Sending) =
          out.add alive [(s.tx, frame)] := by
      cases halive : alive s.tx <;> simp [Sending.add, halive]
    rw [retainSubscribers, hone, ih, Sending.add_add]
    cases halive : alive s.tx <;> simp [halive, sendsTo]

end

section

variable (alive : Nat → Bool) (channel message : Bytes) (m : HashMap Bytes (List Subscriber))
  (out : Sending)

def pruned (subs : List Subscriber) : Option (List Subscriber) :=
  nonEmpty (subs.filter fun s => alive s.tx)

theorem lookup_replaced (name other : Bytes) (subs : Option (List Subscriber)) :
    (match subs with
      | none => m.erase name
      | some subs => m.insert name subs).lookup other =
        if other = name then subs else m.lookup other := by
  by_cases h : other = name
  · subst h
    cases subs with
    | none => rw [if_pos rfl, Finmap.lookup_erase]
    | some subs => rw [if_pos rfl, Finmap.lookup_insert]
  · rw [if_neg h]
    cases subs with
    | none => exact Finmap.lookup_erase_ne h
    | some subs => exact Finmap.lookup_insert_of_ne m h

theorem publishToChannel_sends :
    (publishToChannel alive channel message m out).2 =
      out.add alive (sendsTo (messageFrame channel message) ((m.lookup channel).getD [])) := by
  unfold publishToChannel
  cases h : m.lookup channel with
  | none => exact (out.add_nil alive).symm
  | some subs =>
    dsimp only
    rw [retainSubscribers_eq]
    rfl

theorem lookup_publishToChannel (name : Bytes) :
    (publishToChannel alive channel message m out).1.lookup name =
      if name = channel then (m.lookup name).bind (pruned alive) else m.lookup name := by
  unfold publishToChannel
  cases h : m.lookup channel with
  | none =>
    dsimp only
    split_ifs with hname
    · rw [hname, h]
      rfl
    · rfl
  | some subs =>
    dsimp only
    rw [retainSubscribers_eq]
    dsimp only
    have hkept : (if (subs.filter fun s => alive s.tx).isEmpty then m.erase channel
        else m.insert channel (subs.filter fun s => alive s.tx)) =
          match pruned alive subs with
          | none => m.erase channel
          | some subs => m.insert channel subs := by
      unfold pruned nonEmpty
      split_ifs with hempty hnil hnil
      · rfl
      · exact absurd (isEmpty_iff.mp hempty) hnil
      · exact absurd (isEmpty_iff.mpr hnil) hempty
      · rfl
    rw [hkept, lookup_replaced]
    split_ifs with hname
    · rw [hname, h]
      rfl
    · rfl

theorem retainPattern_eq (pattern : Bytes) (subs : List Subscriber) :
    retainPattern alive channel message pattern subs out =
      if globMatch pattern channel then
        (pruned alive subs, out.add alive (sendsTo (pmessageFrame pattern channel message) subs))
      else (some subs, out) := by
  unfold retainPattern
  cases h : globMatch pattern channel with
  | false => simp
  | true =>
    simp only [if_true, retainSubscribers_eq, Bool.not_true, Bool.or_false]
    unfold pruned nonEmpty
    split_ifs with hempty hnil hnil
    · simp [hnil] at hempty
    · rfl
    · rfl
    · simp [hnil] at hempty

def patternSends (order : List Bytes) : List (Nat × Frame) :=
  (order.filter fun p => globMatch p channel).flatMap fun p =>
    sendsTo (pmessageFrame p channel message) ((m.lookup p).getD [])

theorem patternSends_cons (p : Bytes) (order : List Bytes) :
    patternSends channel message m (p :: order) =
      (if globMatch p channel then
          sendsTo (pmessageFrame p channel message) ((m.lookup p).getD [])
        else []) ++ patternSends channel message m order := by
  unfold patternSends
  rw [filter_cons]
  cases globMatch p channel with
  | false => rfl
  | true => exact flatMap_cons

theorem patternSends_congr {m' : HashMap Bytes (List Subscriber)} {order : List Bytes}
    (h : ∀ p ∈ order, m'.lookup p = m.lookup p) :
    patternSends channel message m' order = patternSends channel message m order := by
  unfold patternSends
  refine flatMap_congr fun p hp => ?_
  rw [h p (mem_of_mem_filter hp)]

theorem publishToPatterns_eq {order : List Bytes} (hnodup : order.Nodup) :
    (publishToPatterns alive channel message order m out).2 =
        out.add alive (patternSends channel message m order) ∧
      ∀ name, (publishToPatterns alive channel message order m out).1.lookup name =
        if name ∈ order ∧ globMatch name channel = true then (m.lookup name).bind (pruned alive)
        else m.lookup name := by
  induction order generalizing m out with
  | nil => exact ⟨(out.add_nil alive).symm, fun name => by rw [if_neg (by simp)]; rfl⟩
  | cons pattern order ih =>
    obtain ⟨hfresh, hnodup⟩ := nodup_cons.mp hnodup
    unfold publishToPatterns
    rw [patternSends_cons]
    cases hlookup : m.lookup pattern with
    | none =>
      obtain ⟨hsends, hkept⟩ := ih m out hnodup
      refine ⟨?_, fun name => ?_⟩
      · have hnothing : (if globMatch pattern channel then
            sendsTo (pmessageFrame pattern channel message) ((none : Option _).getD []) else []) =
              [] := by
          split_ifs <;> rfl
        rw [hnothing]
        exact hsends
      · refine (hkept name).trans ?_
        by_cases hname : name = pattern
        · rw [hname, hlookup, Option.bind_none, ite_self, ite_self]
        · simp only [mem_cons, hname, false_or]
    | some subs =>
      dsimp only
      rw [retainPattern_eq]
      have hothers (kept : Option (List Subscriber)) (p : Bytes) (hp : p ∈ order) :
          (match kept with
            | none => m.erase pattern
            | some subs => m.insert pattern subs).lookup p = m.lookup p := by
        refine (lookup_replaced m pattern p kept).trans (if_neg ?_)
        rintro rfl
        exact hfresh hp
      cases hmatch : globMatch pattern channel with
      | true =>
        simp only [if_true]
        obtain ⟨hsends, hkept⟩ := ih (match pruned alive subs with
          | none => m.erase pattern
          | some subs => m.insert pattern subs)
          (out.add alive (sendsTo (pmessageFrame pattern channel message) subs)) hnodup
        refine ⟨?_, fun name => ?_⟩
        · rw [hsends, patternSends_congr channel message m (hothers _), Sending.add_add]
          rfl
        · rw [hkept name, lookup_replaced]
          by_cases hname : name = pattern
          · subst hname
            simp [hfresh, hmatch, hlookup]
          · simp only [mem_cons, hname, false_or, if_false]
      | false =>
        simp only [Bool.false_eq_true, if_false]
        obtain ⟨hsends, hkept⟩ := ih (m.insert pattern subs) out hnodup
        refine ⟨?_, fun name => ?_⟩
        · rw [hsends, patternSends_congr channel message m (hothers (some subs))]
          rfl
        · rw [hkept name]
          by_cases hname : name = pattern
          · subst hname
            simp [hmatch, hlookup, Finmap.lookup_insert]
          · simp only [mem_cons, hname, false_or, Finmap.lookup_insert_of_ne m hname]

end

namespace PubSubRegistry

variable (alive : Nat → Bool) (r : PubSubRegistry) (channel message : Bytes)

def WalkedBy (r : PubSubRegistry) (order : List Bytes) : Prop :=
  order.Nodup ∧ ∀ p, p ∈ order ↔ p ∈ r.patterns

theorem publishLoops_registry {order : List Bytes} (horder : r.WalkedBy order) :
    (r.publishLoops alive order channel message).1 =
      (r.publish alive channel message).registry := by
  have hchannels : (r.publishLoops alive order channel message).1.channels =
      (r.publish alive channel message).registry.channels := by
    refine Finmap.ext_lookup fun name => ?_
    refine (lookup_publishToChannel alive channel message r.channels ⟨[], 0⟩ name).trans ?_
    refine ((HashMap.lookup_filterMapValues _ r.channels name).trans ?_).symm
    by_cases hname : name = channel
    · rw [if_pos hname]
      simp only [hname, if_true]
      rfl
    · simp only [hname, if_false]
      exact Option.bind_fun_some _
  have hpatterns : (r.publishLoops alive order channel message).1.patterns =
      (r.publish alive channel message).registry.patterns := by
    refine Finmap.ext_lookup fun name => ?_
    refine ((publishToPatterns_eq alive channel message r.patterns _ horder.1).2 name).trans ?_
    refine ((HashMap.lookup_filterMapValues _ r.patterns name).trans ?_).symm
    cases hmatch : globMatch name channel with
    | false =>
      simp only [Bool.false_eq_true, if_false, and_false]
      exact Option.bind_fun_some _
    | true =>
      simp only [if_true, and_true]
      split_ifs with hmem
      · rfl
      · have hnone : r.patterns.lookup name = none :=
          Finmap.lookup_eq_none.mpr fun h => hmem ((horder.2 name).mpr h)
        rw [hnone]
        rfl
  exact congrArg₂ PubSubRegistry.mk hchannels hpatterns

theorem publishLoops_sending {order : List Bytes} (horder : r.WalkedBy order) :
    (r.publishLoops alive order channel message).2 =
      (⟨[], 0⟩ : Sending).add alive
        (sendsTo (messageFrame channel message) (r.subscribers .channel channel) ++
          patternSends channel message r.patterns order) := by
  refine (publishToPatterns_eq alive channel message r.patterns _ horder.1).1.trans ?_
  rw [publishToChannel_sends, Sending.add_add]
  rfl

end PubSubRegistry

/-- A published message goes once to every registration of its channel and, with the pattern named,
to every registration of every matching pattern; the count is of the sends that found a receiver.
Of these registrations those without a receiver go, with names left empty, and nothing else
changes. -/
theorem publish_exact (alive : Nat → Bool) (r : PubSubRegistry) (order : List Bytes)
    (horder : r.WalkedBy order) (channel message : Bytes) (r' : PubSubRegistry) (out : Sending)
    (hout : r.publishLoops alive order channel message = (r', out)) :
    out.sent =
        (r.subscribers .channel channel).map (fun s => (s.tx, messageFrame channel message)) ++
        (order.filter fun p => globMatch p channel).flatMap (fun p =>
          (r.subscribers .pattern p).map fun s => (s.tx, pmessageFrame p channel message)) ∧
      out.delivered = (out.sent.filter fun s => alive s.1).length ∧
      (∀ name, r'.channels.lookup name =
        if name = channel then
          (r.channels.lookup name).bind fun subs => nonEmpty (subs.filter fun s => alive s.tx)
        else r.channels.lookup name) ∧
      ∀ pattern, r'.patterns.lookup pattern =
        if globMatch pattern channel then
          (r.patterns.lookup pattern).bind fun subs => nonEmpty (subs.filter fun s => alive s.tx)
        else r.patterns.lookup pattern := by
  obtain ⟨rfl, rfl⟩ := Prod.ext_iff.mp hout.symm
  have hsending := r.publishLoops_sending alive channel message horder
  have hsent : (r.publishLoops alive order channel message).2.sent = _ :=
    (congrArg Sending.sent hsending).trans (nil_append _)
  refine ⟨hsent, ?_, ?_, ?_⟩
  · rw [hsent, hsending]
    exact Nat.zero_add _
  · exact lookup_publishToChannel alive channel message r.channels ⟨[], 0⟩
  · intro pattern
    rw [r.publishLoops_registry alive channel message horder]
    refine (HashMap.lookup_filterMapValues _ r.patterns pattern).trans ?_
    cases globMatch pattern channel with
    | false => exact Option.bind_fun_some _
    | true => rfl

def patternRegistry : PubSubRegistry :=
  (((PubSubRegistry.empty.subscribe (txt "other") 2 7).2.psubscribe (txt "c*") 1 5).2.psubscribe
    (txt "c*") 3 6).2

theorem patternRegistry_walked : patternRegistry.WalkedBy [txt "c*"] := by
  refine ⟨nodup_singleton _, fun p => ?_⟩
  have hpatterns : patternRegistry.patterns =
      ((∅ : HashMap Bytes (List Subscriber)).insert (txt "c*") [⟨1, 5⟩]).insert (txt "c*")
        [⟨1, 5⟩, ⟨3, 6⟩] := rfl
  simp [hpatterns, Finmap.notMem_empty]

/-- Of two receivers on the pattern one is gone; the other channel stays as it is. -/
theorem publish_exact_pattern :
    ∃ r' out, patternRegistry.publishLoops (· == 5) [txt "c*"] (txt "ch") (txt "hi") = (r', out) ∧
      out.sent.length = 2 ∧ out.delivered = 1 ∧ r'.patterns.lookup (txt "c*") = some [⟨1, 5⟩] ∧
      r'.channels.lookup (txt "other") = some [⟨2, 7⟩] := by
  obtain ⟨hsent, hdelivered, hchannels, hpatterns⟩ := publish_exact (· == 5) patternRegistry
    [txt "c*"] patternRegistry_walked (txt "ch") (txt "hi") _ _ rfl
  rw [hsent] at hdelivered
  refine ⟨_, _, rfl, ?_, hdelivered.trans (by decide), (hpatterns _).trans (by decide),
    (hchannels _).trans (by decide)⟩
  rw [hsent]
  decide

end RocketMem
