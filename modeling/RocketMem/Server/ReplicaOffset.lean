import RocketMem.Server.FollowerRun
import RocketMem.Server.LogOrder
import RocketMem.Server.Offsets

namespace RocketMem

open Function UInt64

variable {F : Type} [F64 F]

section

def SameOffset (s s' : Node F) : Prop := s'.follower.slaveOffset = s.follower.slaveOffset

def ServerOp.KeepsOffset : ServerOp F → Prop
  | follow (.storeSlaveOffset _) | follow (.addSlaveOffset _) => False
  | _ => True

variable {cfg : Settings} {i : Nat} {s s' : Node F}

theorem ServerOp.KeepsOffset.exec {x : Option Fault} {o : ServerOp F} (h : o.KeepsOffset)
    {r : o.Ret} (hx : (server F cfg).exec i x o s = some (r, s')) : SameOffset s s' := by
  cases o with
  | follow o =>
    obtain ⟨f, hf, rfl⟩ := exec_follow hx
    have hf' := congrArg (Option.map Prod.snd) hf
    change f.slaveOffset = s.follower.slaveOffset
    cases o with
    | storeSlaveOffset | addSlaveOffset => exact h.elim
    | lockTask =>
      simp only [FollowerOp.exec] at hf'
      split at hf' <;> cases hf'
      rfl
    | abortTask | resume =>
      simp only [FollowerOp.exec] at hf'
      split at hf' <;> cases hf' <;> rfl
    | poll =>
      simp only [FollowerOp.exec] at hf'
      split at hf'
      · cases hf'
      · split at hf' <;> cases hf' <;> rfl
    | _ =>
      cases hf'
      rfl
  | _ => exact congrArg Follower.slaveOffset (ServerOp.Elsewhere.exec hx (by trivial))

theorem runsAmid_offset {α : Type} {p q : ServerProgram F α} (hp : p.Calls ServerOp.KeepsOffset)
    (h : Machine.RunsAmid (server F cfg) SameOffset i p s q s') : SameOffset s s' := by
  refine h.invariant (I := fun s'' => SameOffset s s'') ?_ ?_ hp rfl
  · exact fun _ _ hstep hs => hstep.trans hs
  · exact fun o ho x r _ _ hx hs => (ho.exec hx).trans hs

theorem isStale_calls (mine : UInt64) :
    (isStale mine : ServerProgram F Bool).Calls ServerOp.KeepsOffset :=
  .bind (.perform trivial) fun _ => .ret _

theorem await_keepsOffset (ready : Bool) :
    (await ready : ServerProgram F Unit).Calls ServerOp.KeepsOffset :=
  await_calls trivial trivial ready

theorem addSlaveOffset_adds {n : Nat} {u : Unit}
    (h : Machine.RunsAmid (server F cfg) SameOffset i (perform (.follow (.addSlaveOffset n))) s
      (.ret u) s') :
    s'.follower.slaveOffset = s.follower.slaveOffset + ofNat n := by
  refine h.perform (I := fun s₁ => s₁.follower.slaveOffset = s.follower.slaveOffset)
    (J := fun s₁ => s₁.follower.slaveOffset = s.follower.slaveOffset + ofNat n) ?_ ?_ ?_ rfl
  · exact fun _ _ hstep hs => Eq.trans hstep hs
  · exact fun _ _ hstep hs => Eq.trans hstep hs
  · intro x s₁ s₂ hx hs
    obtain ⟨f, hf, rfl⟩ := exec_follow hx
    cases hf
    exact congrArg (· + ofNat n) hs

theorem storeSlaveOffset_stores {n : UInt64} {u : Unit}
    (h : Machine.RunsAmid (server F cfg) SameOffset i (perform (.follow (.storeSlaveOffset n))) s
      (.ret u) s') : s'.follower.slaveOffset = n := by
  refine h.perform (I := fun _ => True) (J := fun s₁ => s₁.follower.slaveOffset = n)
    (fun _ _ _ _ => trivial) ?_ ?_ trivial
  · exact fun _ _ hstep hs => Eq.trans hstep hs
  · intro x s₁ s₂ hx _
    obtain ⟨f, hf, rfl⟩ := exec_follow hx
    cases hf
    rfl

theorem followStream_offset {mine : UInt64} {turns : List Turn} {g : TransactionGrouper}
    {channel : List Frame} (hchannel : ∀ f ∈ channel, Resp2Frame f)
    (h : Machine.RunsAmid (server F cfg) SameOffset i
      (followStream mine turns g (channel.flatMap (encode .resp2))) s (.ret (.lost [])) s') :
    s'.follower.slaveOffset = s.follower.slaveOffset + ofNat (bytesOf channel) := by
  have hnone {s s' : Node F} (h : SameOffset s s') :
      s'.follower.slaveOffset = s.follower.slaveOffset + ofNat (bytesOf []) := by
    rw [h]
    exact (add_zero _).symm
  induction turns generalizing g channel s with
  | nil =>
    cases channel with
    | nil => exact hnone (runsAmid_offset (.ret _) h)
    | cons f fs =>
      have hend := SyncEnd.lost.inj h.ret_eq
      have hempty := (List.append_eq_nil_iff.mp hend).1
      exact absurd (congrArg List.length hempty) (encode_pos f).ne'
  | cons turn turns ih =>
    obtain ⟨_, s₁, hawait, h⟩ := h.bind_ret
    have hsame := runsAmid_offset (await_keepsOffset _) hawait
    cases channel with
    | nil =>
      rw [List.flatMap_nil, decode_nil] at h
      exact hnone ((runsAmid_offset (.ret _) h).trans hsame)
    | cons f fs =>
      rw [decode_flatMap_encode (hchannel f List.mem_cons_self)] at h
      obtain ⟨stale, s₂, hstale, h⟩ := h.bind_ret
      have hsame₂ := (runsAmid_offset (isStale_calls mine) hstale).trans hsame
      cases stale with
      | true => cases h.ret_eq
      | false =>
        obtain ⟨_, s₃, happly, h⟩ := h.bind_ret
        have hsame₃ : SameOffset s s₃ := by
          refine (runsAmid_offset (forM_calls (fun frame => ?_) _) happly).trans hsame₂
          exact applyReplicated_calls (fun _ => trivial) (fun _ _ => trivial) (fun _ => trivial)
            trivial (fun _ _ => trivial) _ _
        obtain ⟨_, s₄, hadd, h⟩ := h.bind_ret
        rw [drop_flatMap_encode] at h
        rw [ih (fun f' hf' => hchannel f' (List.mem_cons_of_mem f hf')) h, addSlaveOffset_adds hadd,
          hsame₃, add_assoc, ← ofNat_add]
        rfl

theorem loadSnapshot_header {env : Env} {blob : Bytes} {offset : Nat}
    (h : Machine.RunsAmid (server F cfg) SameOffset i (loadSnapshot env blob) s
      (.ret (some offset)) s') : offset = headerOf blob := by
  unfold loadSnapshot at h
  split at h
  · cases h.ret_eq
  · split at h
    · cases h.ret_eq
    · obtain ⟨_, s₁, -, h⟩ := h.bind_ret
      obtain ⟨_, s₂, -, h⟩ := h.bind_ret
      obtain ⟨_, s₃, -, h⟩ := h.bind_ret
      exact (Option.some.inj h.ret_eq).symm

theorem followLeader_offset {mine : UInt64} {a : Attempt} {blob : Bytes} {channel : List Frame}
    (hchannel : ∀ f ∈ channel, Resp2Frame f)
    (h : Machine.RunsAmid (server F cfg) SameOffset i
      (followLeader mine a blob (channel.flatMap (encode .resp2))) s (.ret (.lost [])) s') :
    s'.follower.slaveOffset = ofNat (headerOf blob + bytesOf channel) := by
  obtain ⟨stale, s₁, -, h⟩ := h.bind_ret
  cases stale with
  | true => cases h.ret_eq
  | false =>
    obtain ⟨loaded, s₂, hload, h⟩ := h.bind_ret
    cases loaded with
    | none => cases h.ret_eq
    | some offset =>
      obtain ⟨stale, s₃, -, h⟩ := h.bind_ret
      cases stale with
      | true => cases h.ret_eq
      | false =>
        obtain ⟨_, s₄, hstore, h⟩ := h.bind_ret
        obtain ⟨_, s₅, hlink, h⟩ := h.bind_ret
        obtain ⟨_, s₆, hawait, h⟩ := h.bind_ret
        have hcalls : (perform (.follow (.storeLinkUp true)) : ServerProgram F Unit).Calls
            ServerOp.KeepsOffset := .perform trivial
        have hlinked := runsAmid_offset hcalls hlink
        have hawaited := (runsAmid_offset (await_keepsOffset _) hawait).trans hlinked
        rw [followStream_offset hchannel h, hawaited, storeSlaveOffset_stores hstore,
          ← ofNat_add, loadSnapshot_header hload]

end

/-- Once the leader is idle and the follower has come to the end of what it was sent, both are at
the same offset. -/
theorem replication_offsets_agree {cfg : Settings} {node : Node F} {l : Nat}
    {requests : Nat → Option Request} {final : ServerConfig F} {link : Link} (hquiet : node.Quiet l)
    (hrequests : ∀ i r, requests i = some r → r.Publishable)
    (hrun : (server F cfg).Reaches (CountsFanned l) (serving cfg node requests) final)
    (hsettled : final.Settled) (hlink : final.shared.fanout.links l = some link)
    (hsize : ∀ f ∈ link.channel, ((encode .resp2 f).length : Int) ≤ i64Max)
    {cfg' : Settings} {t : Nat} {mine : UInt64} {a : Attempt} {follower follower' : Node F}
    (hfollow : Machine.RunsAmid (server F cfg') SameOffset t
      (followLeader mine a link.blob (link.channel.flatMap (encode .resp2))) follower
      (.ret (.lost [])) follower') :
    follower'.follower.slaveOffset = final.shared.fanout.masterOffset := by
  obtain ⟨hoffset, hwire⟩ := settled_accounts hquiet hrequests hrun hsettled hlink
  rw [hoffset]
  exact followLeader_offset (fun f hf => (hwire f hf).resp2 (hsize f hf)) hfollow

variable {cfg : Settings}

def publishFrame : Frame := .command [txt "PUBLISH", txt "c", txt "m"]

def publishCommand : Command := ⟨Env.still, publishFrame, none⟩

theorem publishFrame_resp2 : Resp2Frame publishFrame := (WireFrame.command _).resp2 (by decide)

theorem publishCommand_publishable : publishCommand.Publishable := by
  have hdecode := decode_encode publishFrame_resp2 []
  exact fun _ => ⟨_, _, hdecode⟩

theorem publishCommand_program (cfg : Settings) :
    (Request.single publishCommand).program (F := F) cfg = runPublish publishFrame := by
  have hname (name : String) (h : asciiUpper (txt "PUBLISH") ≠ txt name) :
      isNamed name publishFrame = false := decide_eq_false h
  have hsave := hname "SAVE" (by decide)
  have hrewrite := hname "BGREWRITEAOF" (by decide)
  have hpublish : isNamed "PUBLISH" publishFrame = true := by decide
  simp only [Request.program, dispatchAndLogGated, publishCommand, hsave, hrewrite, hpublish,
    Bool.false_eq_true, if_false, if_true]

def attachAndPublish (i : Nat) : Option Request :=
  [Request.psync Env.still, .single publishCommand][i]?

theorem attachAndPublish_publishable (i : Nat) (r : Request) (hr : attachAndPublish i = some r) :
    r.Publishable := by
  have hmem := List.mem_of_getElem? hr
  rcases List.mem_cons.mp hmem with rfl | hmem
  · trivial
  · rw [List.mem_singleton.mp hmem]
    exact fun _ => publishCommand_publishable

def publishSize : Nat := (encode .resp2 publishFrame).length

def counted (s : Node Score) : Node Score :=
  { s with fanout := (FanoutOp.exec 1 (.advanceMasterReplOffset publishSize)
      (FanoutOp.exec 1 (.publish (txt "c") (txt "m")) s.fanout).2).2 }

def fanned (s : Node Score) : Node Score :=
  { s with sent := s.sent ++ [publishFrame], fanout := s.fanout.broadcast 1 publishFrame }

def publishRest (s : Node Score) : ServerProgram Score Frame := do
  perform (.broadcast publishFrame)
  return .integer (FanoutOp.exec 1 (.publish (txt "c") (txt "m")) s.fanout).1

theorem publish_counts {permits : Nat → Option Fault → ServerOp Score →
      Node Score → Prop} (s : Node Score)
    (hpublish : permits 1 none (.fanout (.publish (txt "c") (txt "m"))) s)
    (hadvance : permits 1 none (.fanout (.advanceMasterReplOffset publishSize))
      { s with fanout := (FanoutOp.exec 1 (.publish (txt "c") (txt "m")) s.fanout).2 }) :
    (server Score cfg).Runs permits 1 (runPublish publishFrame) s (publishRest s) (counted s) :=
  .call none hpublish rfl (.call none hadvance rfl (.refl _ _))

theorem publish_fans {permits : Nat → Option Fault → ServerOp Score →
      Node Score → Prop} {s s' : Node Score}
    (hbroadcast : permits 1 none (.broadcast publishFrame) s') :
    ∃ reply, (server Score cfg).Runs permits 1 (publishRest s) s' (.ret reply) (fanned s') :=
  ⟨_, .call none hbroadcast rfl (.refl _ _)⟩

def emptyImage (offset : UInt64) : Bytes :=
  serialize Env.still (Store.new : Store Score) offset.toNat

def attached (s : Node Score) : Node Score :=
  { s.note (.captured Env.still (s.store.snapshotEntries Env.still)) with
    fanout := { s.fanout with
      links := update s.fanout.links 0 (some ⟨emptyImage s.fanout.masterOffset, []⟩)
      attaching := update (update s.fanout.attaching 0 (some s.fanout.masterOffset)) 0 none } }

theorem handoff_attaches (cfg : Settings) {s : Node Score} (hstore : s.store = .new)
    (hfree : ∀ j, s.guards j = none) :
    Alone cfg 0 ((Request.psync Env.still).program cfg) s .null (attached s) := by
  have hrun := serveReplicaHandoff_alone cfg 0 Env.still hfree
    (by rw [hstore]; exact serialize_new_length _)
  rw [attached, emptyImage, ← hstore]
  exact hrun

def ServerOp.Settles : ServerOp F → Prop
  | fanout (.advanceMasterReplOffset _) | broadcast _ => False
  | _ => True

theorem ServerOp.Settles.exec {i : Nat} {x : Option Fault} {o : ServerOp F}
    (h : o.Settles) {s s' : Node F} {r : o.Ret}
    (hx : (server F cfg).exec i x o s = some (r, s')) :
    s'.fanout.outstanding = s.fanout.outstanding := by
  have hs' := congrArg (Option.map Prod.snd) hx
  cases o with
  | broadcast => exact h.elim
  | fanout o =>
    obtain rfl := Option.some.inj hs'
    cases o with
    | advanceMasterReplOffset => exact h.elim
    | _ => rfl
  | lockShard j =>
    obtain ⟨-, rfl⟩ := exec_lockShard hx
    rfl
  | unlockShards =>
    obtain rfl := Option.some.inj hs'
    rfl
  | _ => exact congrArg Fanout.outstanding (ServerOp.Aside.exec hx (by trivial)).2

theorem handoff_settles (env : Env) :
    (serveReplicaHandoff env : ServerProgram F Frame).Calls ServerOp.Settles := by
  refine .bind (forM_calls (fun j => .perform trivial) _) fun _ => ?_
  refine .bind (.perform trivial) fun offset => ?_
  refine .bind (takeSnapshot_calls (fun _ => trivial) (fun _ => trivial) _) fun blob => ?_
  exact .bind (.perform trivial) fun _ => .bind (.perform trivial) fun _ => .ret _

theorem handoff_counts {s s' : Node Score} {reply : Frame}
    (h : Alone cfg 0 ((Request.psync Env.still).program cfg) s reply s')
    (hs : s.fanout.outstanding = []) :
    (server Score cfg).Runs (CountsFanned 0) 0
      ((Request.psync Env.still).program cfg) s (.ret reply) s' := by
  refine h.permitted (I := fun s => s.fanout.outstanding = []) ?_ ?_ (handoff_settles _) hs
  · exact fun o ho x r s s' hx hnone => (ho.exec hx).trans hnone
  · intro o ho x s _ hnone
    cases o with
    | fanout o =>
      cases o with
      | advanceMasterReplOffset => exact ho.elim
      | masterReplOffset => exact fun _ => hnone
      | _ => trivial
    | _ => trivial

def oneMessage : Attempt := ⟨⟨true, Env.still⟩, [], true, [⟨true, Env.still⟩]⟩

theorem deserialize_emptyImage (offset : UInt64) :
    ∃ loaded : Store Score,
      deserialize Env.still.clock Store.new (emptyImage offset) = .ok (offset.toNat, loaded) := by
  obtain ⟨loaded, hload, -⟩ := deserialize_serialize Env.still
    (Store.new : Store Score) (storable_new _) offset.toNat_lt (serialize_new_length _) Store.new
  exact ⟨loaded, hload⟩

theorem follows_message (cfg : Settings) (offset : UInt64) :
    ∃ follower : Node Score,
      Machine.RunsAmid (server Score cfg) SameOffset 0
        (followLeader 0 oneMessage (emptyImage offset) ([publishFrame].flatMap (encode .resp2)))
        (Node.new cfg) (.ret (.lost [])) follower := by
  obtain ⟨loaded, hload⟩ := deserialize_emptyImage offset
  let anyhow : Nat → Option Fault → ServerOp Score → Node Score → Prop := fun _ _ _ _ => True
  have hanyhow (x : Option Fault) (o : ServerOp Score) (s : Node Score) : anyhow 0 x o s := trivial
  have hfresh (s : Node Score) (hs : s.follower.generation = 0) :
      (server Score cfg).Runs anyhow 0 (isStale 0) s (.ret false) s := by
    have hrun := isStale_runs cfg 0 anyhow hanyhow 0 s
    rwa [hs] at hrun
  have hstream (s : Node Score) (hs : s.follower.generation = 0) :
      ∃ s', (server Score cfg).Runs anyhow 0
        (followStream 0 oneMessage.turns .new ([publishFrame].flatMap (encode .resp2))) s
        (.ret (.lost [])) s' := by
    have hpublish : isReplicatedPublish publishFrame = true := by decide
    have hfeed : TransactionGrouper.new.feedOrSkip publishFrame = ([publishFrame], .new) := rfl
    rw [oneMessage, followStream, decode_flatMap_encode publishFrame_resp2]
    dsimp only
    rw [drop_flatMap_encode, hfeed]
    have happly : (server Score cfg).Runs anyhow 0
        (applyReplicated Env.still publishFrame) s (.ret ()) { s with
          fanout := (FanoutOp.exec 0 (.publish (txt "c") (txt "m")) s.fanout).2 } := by
      unfold applyReplicated
      rw [if_pos hpublish]
      change (server Score cfg).Runs anyhow 0
        (perform (.fanout (.publish (txt "c") (txt "m"))) >>= fun _ => pure ()) _ _ _
      exact .bind (.perform none trivial rfl) (.refl _ _)
    exact ⟨_, .bind (.refl _ _) (.bind (hfresh s hs) (.bind (.bind happly (.refl _ _))
      (.bind (.perform none trivial rfl) (.refl _ _))))⟩
  obtain ⟨s₁, hloads, hs₁⟩ := loadSnapshot_runs cfg 0 anyhow hanyhow hload (Node.new cfg)
  have hgeneration : s₁.follower.generation = 0 := congrArg Follower.generation hs₁
  obtain ⟨s₂, hend⟩ := hstream { s₁ with follower := { s₁.follower with
    slaveOffset := ofNat offset.toNat, linkUp := true } } hgeneration
  have hrun : (server Score cfg).Runs anyhow 0 (followLeader 0 oneMessage (emptyImage offset)
      ([publishFrame].flatMap (encode .resp2))) (Node.new cfg) (.ret (.lost [])) s₂ := by
    refine .bind (hfresh _ rfl) (.bind hloads (.bind (hfresh _ hgeneration) ?_))
    exact .bind (.perform none trivial rfl) (.bind (.perform none trivial rfl)
      (.bind (.refl _ _) hend))
  exact ⟨s₂, hrun.amid⟩

theorem settled_of_two {final : ServerConfig Score} {a b : Frame}
    (h₀ : final.threads 0 = some (.ret a)) (h₁ : final.threads 1 = some (.ret b))
    (hrest : ∀ i, final.threads (i + 2) = none) : final.Settled := by
  intro i p hp
  match i with
  | 0 => exact ⟨a, Option.some.inj (hp.symm.trans h₀)⟩
  | 1 => exact ⟨b, Option.some.inj (hp.symm.trans h₁)⟩
  | i + 2 => cases (hrest i).symm.trans hp

theorem published_after (cfg : Settings) :
    ∃ final : ServerConfig Score,
      (server Score cfg).Reaches (CountsFanned 0)
        (serving cfg (Node.new cfg) attachAndPublish) final ∧
      final.Settled ∧ final.shared = fanned (counted (attached (Node.new cfg))) := by
  have hattach := handoff_counts (handoff_attaches cfg (s := Node.new cfg) rfl fun _ => rfl) rfl
  have hprogram : (serving cfg (Node.new cfg : Node Score) attachAndPublish).threads 1 =
      some (runPublish publishFrame) :=
    congrArg some (publishCommand_program cfg)
  have hnone : (attached (Node.new cfg)).fanout.attaching 0 = none := rfl
  have hstart : (server Score cfg).Reaches (CountsFanned 0) _
    (serving cfg (Node.new cfg) attachAndPublish) := .refl
  have hcount := (hstart.runs (i := 0) rfl hattach).runs (i := 1) hprogram
    (publish_counts (attached (Node.new cfg)) trivial fun _ => hnone)
  obtain ⟨reply, hfan⟩ : ∃ reply, (server Score cfg).Runs (CountsFanned 0) 1
      (publishRest (attached (Node.new cfg))) (counted (attached (Node.new cfg))) (.ret reply) _ :=
    publish_fans trivial
  exact ⟨_, hcount.runs (i := 1) rfl hfan, settled_of_two rfl rfl fun _ => rfl, rfl⟩

theorem published_across (cfg : Settings) :
    ∃ final : ServerConfig Score,
      (server Score cfg).Reaches (fun _ _ _ _ => True)
        (serving cfg (Node.new cfg) attachAndPublish) final ∧
      final.Settled ∧ final.shared = fanned (attached (counted (Node.new cfg))) := by
  have hprogram : (serving cfg (Node.new cfg : Node Score) attachAndPublish).threads 1 =
      some (runPublish publishFrame) :=
    congrArg some (publishCommand_program cfg)
  have hstart : (server Score cfg).Reaches (fun _ _ _ _ => True) _
    (serving cfg (Node.new cfg) attachAndPublish) := .refl
  have hcount := hstart.runs (i := 1) hprogram (publish_counts (Node.new cfg) trivial trivial)
  have hattach := handoff_attaches cfg (s := counted (Node.new cfg)) rfl fun _ => rfl
  have hattached := hcount.runs (i := 0) rfl (hattach.mono fun _ _ _ _ => trivial)
  obtain ⟨reply, hfan⟩ : ∃ reply, (server Score cfg).Runs (fun _ _ _ _ => True) 1
      (publishRest (Node.new cfg)) (attached (counted (Node.new cfg))) (.ret reply) _ :=
    publish_fans trivial
  exact ⟨_, hattached.runs (i := 1) rfl hfan, settled_of_two rfl rfl fun _ => rfl, rfl⟩

theorem replication_offsets_agree_publish :
    ∃ (final : ServerConfig Score) (link : Link) (follower : Node Score),
      (server Score .eachSecond).Reaches (CountsFanned 0)
        (serving .eachSecond (Node.new .eachSecond) attachAndPublish)
        final ∧
      final.shared.fanout.links 0 = some link ∧ link.channel = [publishFrame] ∧
      Machine.RunsAmid (server Score .eachSecond) SameOffset 0
        (followLeader 0 oneMessage link.blob (link.channel.flatMap (encode .resp2)))
        (Node.new .eachSecond) (.ret (.lost [])) follower ∧
      follower.follower.slaveOffset = final.shared.fanout.masterOffset := by
  obtain ⟨final, hrun, hsettled, hshared⟩ := published_after .eachSecond
  have hlink : final.shared.fanout.links 0 = some ⟨emptyImage 0, [publishFrame]⟩ := by
    rw [hshared]
    rfl
  obtain ⟨follower, hfollow⟩ := follows_message .eachSecond 0
  have hsize : ∀ f ∈ [publishFrame], ((encode .resp2 f).length : Int) ≤ i64Max := by
    intro f hf
    rw [List.mem_singleton.mp hf]
    decide
  exact ⟨final, _, follower, hrun, hlink, rfl, hfollow, replication_offsets_agree
    ⟨fun _ => rfl, fun _ => rfl, rfl, rfl⟩ attachAndPublish_publishable hrun hsettled hlink hsize
    hfollow⟩

/-- A message that is counted before the replica attaches and fanned out afterwards puts the replica
ahead of its leader. -/
theorem replication_offsets_differ :
    ∃ (final : ServerConfig Score) (link : Link) (follower : Node Score),
      (server Score .eachSecond).Reaches (fun _ _ _ _ => True)
        (serving .eachSecond (Node.new .eachSecond) attachAndPublish)
        final ∧
      final.Settled ∧ final.shared.fanout.links 0 = some link ∧
      Machine.RunsAmid (server Score .eachSecond) SameOffset 0
        (followLeader 0 oneMessage link.blob (link.channel.flatMap (encode .resp2)))
        (Node.new .eachSecond) (.ret (.lost [])) follower ∧
      follower.follower.slaveOffset ≠ final.shared.fanout.masterOffset := by
  obtain ⟨final, hrun, hsettled, hshared⟩ := published_across .eachSecond
  have hlink : final.shared.fanout.links 0 =
      some ⟨emptyImage (ofNat publishSize), [publishFrame]⟩ := by
    rw [hshared]
    rfl
  have hmaster : final.shared.fanout.masterOffset = ofNat publishSize := by
    rw [hshared]
    rfl
  obtain ⟨follower, hfollow⟩ := follows_message .eachSecond (ofNat publishSize)
  refine ⟨final, _, follower, hrun, hsettled, hlink, hfollow, ?_⟩
  have hchannel : ∀ f ∈ [publishFrame], Resp2Frame f := by
    intro f hf
    rw [List.mem_singleton.mp hf]
    exact publishFrame_resp2
  rw [followLeader_offset hchannel hfollow, hmaster, emptyImage]
  have hheader : headerOf (serialize Env.still (Store.new : Store Score)
      (ofNat publishSize).toNat) = publishSize := by
    decide
  rw [hheader]
  decide

end RocketMem
