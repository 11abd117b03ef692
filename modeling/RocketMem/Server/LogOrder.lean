import RocketMem.Server.RoundTrip
import RocketMem.Server.Writers

namespace RocketMem

open Option Function

variable {F : Type} [F64 F] {w : Replayer F} {cfg : Settings}
  {permits : Nat → Option Fault → ServerOp F → Node F → Prop}

structure Node.Ready (w : Replayer F) (s : Node F) : Prop where
  live : s.store.live w.env.clock = w.origin
  guards : ∀ j, s.guards j = none
  log : s.log = []
  sent : s.sent = []

section

variable {node : Node F} {requests : Nat → Option Request} {final : ServerConfig F}

theorem Node.Ready.inv (h : node.Ready w) : SerialInv w node := by
  have hframes : node.frames = [] := congrArg (List.map Prod.snd) h.log
  refine ⟨?_, ?_, fun k _ => ?_⟩
  · rw [hframes]
    exact w.storable
  · rw [hframes]
    trivial
  · rw [Replayer.view, hframes, h.sent, h.live]
    exact ⟨rfl, rfl⟩

theorem serving_sustains (hready : node.Ready w)
    (hrequests : ∀ i r, requests i = some r → r.Admitted w) :
    (serial w).Sustains (server F cfg) permits (fun i _ => Synced w i ∅)
      (serving cfg node requests) := by
  have hfree (i : Nat) (j : Fin shardCount) : node.guards j ≠ some i := by
    rw [hready.guards j]
    exact nofun
  refine ⟨hready.inv, fun i p hp => ?_, fun i _ => hfree i⟩
  obtain ⟨r, hr, rfl⟩ := map_eq_some_iff.mp hp
  exact request_triple (hrequests i r hr) node (synced_empty hready.inv (hfree i))

theorem Discipline.Sustains.unguarded
    (h : (serial w).Sustains (server F cfg) permits (fun i _ => Synced w i ∅) final)
    (hsettled : final.Settled) (j : Fin shardCount) : final.shared.guards j = none := by
  cases hj : final.shared.guards j with
  | none => rfl
  | some i =>
    exfalso
    cases hi : final.threads i with
    | none => exact h.absent i hi j hj
    | some p =>
      obtain ⟨a, rfl⟩ := hsettled i p hi
      exact absurd ((h.ret hi).guards j |>.mp hj) (Finset.notMem_empty j)

theorem settled_level (hready : node.Ready w)
    (hrequests : ∀ i r, requests i = some r → r.Admitted w)
    (hrun : (server F cfg).Reaches permits (serving cfg node requests) final)
    (hsettled : final.Settled) (k : Bytes) : Level (w.view final.shared k) := by
  have h := Discipline.sound (serving_sustains hready hrequests) hrun
  exact h.inv.level k (h.unguarded hsettled _)

end

section

variable {i : Nat} {x : Option Fault} {o : ServerOp F} {s s' : Node F} {r : o.Ret}

theorem exec_links (hx : (server F cfg).exec i x o s = some (r, s')) :
    (s'.sent = s.sent ∧ s'.fanout.links = s.fanout.links) ∨
    (∃ frame, s'.sent = s.sent ++ [frame] ∧
      s'.fanout.links = fun l => (s.fanout.links l).map fun link =>
        { link with channel := link.channel ++ [frame] }) ∨
    ∃ blob, o = .fanout (.register blob) ∧ s'.sent = s.sent ∧
      s'.fanout.links = update s.fanout.links i (some ⟨blob, []⟩) := by
  have hs' := congrArg (Option.map Prod.snd) hx
  cases o with
  | broadcast frame =>
    obtain rfl := some.inj hs'
    exact .inr (.inl ⟨frame, rfl, rfl⟩)
  | fanout o =>
    obtain rfl := some.inj hs'
    cases o with
    | register blob => exact .inr (.inr ⟨blob, rfl, rfl, rfl⟩)
    | _ => exact .inl ⟨rfl, rfl⟩
  | append frame =>
    obtain ⟨disk, hrest⟩ := Node.append_frame i x frame s
    obtain rfl := (some.inj hs').symm.trans hrest
    exact .inl ⟨rfl, rfl⟩
  | lockShard j =>
    obtain ⟨-, rfl⟩ := exec_lockShard hx
    exact .inl ⟨rfl, rfl⟩
  | follow o =>
    simp only [server, ServerOp.exec, map_map] at hs'
    obtain ⟨_, -, rfl⟩ := map_eq_some_iff.mp hs'
    exact .inl ⟨rfl, rfl⟩
  | note n =>
    obtain rfl := some.inj hs'
    cases n <;> exact .inl ⟨rfl, rfl⟩
  | engine | clearShard | unlockShards =>
    obtain rfl := some.inj hs'
    exact .inl ⟨rfl, rfl⟩
  | shardEntries | lockRewrite | unlockRewrite | flush | rotate | aofLen | readFile | create | write
  | sync | rename | syncDir | remove =>
    obtain ⟨_, _, _, _, _, _, rfl, -⟩ := exec_onFiles hx trivial
    exact .inl ⟨rfl, rfl⟩

end

section

variable {node : Node F} {requests : Nat → Option Request} {final : ServerConfig F}

theorem registered_receives {l : Nat} {link : Link} (hlink : node.fanout.links l = some link)
    (hsent : node.sent = []) (hl : requests l = none)
    (hrun : (server F cfg).Reaches permits (serving cfg node requests) final) :
    final.shared.fanout.links l =
      some { link with channel := link.channel ++ final.shared.sent } := by
  refine hrun.invariant
    (I := fun s : Node F => s.fanout.links l = some { link with channel := link.channel ++ s.sent }) ?_ ?_
    fun _ _ h => h
  · change node.fanout.links l = some { link with channel := link.channel ++ node.sent }
    rw [hlink, hsent, List.append_nil]
  · intro i x o r s s' hi _ hx h
    have hne : l ≠ i := by
      rintro rfl
      exact hi (congrArg (Option.map (Request.program cfg)) hl)
    rcases exec_links hx with ⟨hsame, hlinks⟩ | ⟨frame, hmore, hlinks⟩ | ⟨blob, -, hsame, hlinks⟩
    · rw [hlinks, hsame]
      exact h
    · rw [hlinks, hmore]
      simp only [h, map_some, List.append_assoc]
    · rw [hlinks, hsame, update_of_ne hne]
      exact h

theorem after_eq_dispatchAll (hready : node.Ready w) (frames : List Frame) :
    (dispatchAll w.env (commands frames) node.store).live w.env.clock = w.after frames := by
  rw [dispatchAll_live w.unlimited, hready.live]
  rfl

/-- However the writers interleave, replaying the log from the start gives the keyspace they end
with, and so does replaying what any replica received that was there from the start. -/
theorem writers_serializable (hready : node.Ready w)
    (hrequests : ∀ i r, requests i = some r → r.Admitted w)
    (hrun : (server F cfg).Reaches AppendsSucceed (serving cfg node requests) final)
    (hsettled : final.Settled) :
    final.shared.store.live w.env.clock =
        (dispatchAll w.env (commands final.shared.frames) node.store).live w.env.clock ∧
      ∀ l link, node.fanout.links l = some link → requests l = none →
        ∃ received, final.shared.fanout.links l =
            some { link with channel := link.channel ++ received } ∧
          final.shared.store.live w.env.clock =
            (dispatchAll w.env (commands received) node.store).live w.env.clock := by
  have hlevel := settled_level hready hrequests hrun hsettled
  constructor
  · rw [after_eq_dispatchAll hready]
    exact funext fun k => (hlevel k).1
  · intro l link hlink hl
    refine ⟨_, registered_receives hlink hready.sent hl hrun, ?_⟩
    rw [after_eq_dispatchAll hready]
    exact funext fun k => (hlevel k).1.trans (hlevel k).2.symm

end

section

variable {node : Node F} {requests : Nat → Option Request} {final : ServerConfig F}

/-- What a replica was handed, followed by what has been put into its channel, says what the whole
stream says. -/
def Follows (w : Replayer F) (sent : List Frame) (link : Link) : Prop :=
  ∃ ks, Loads w.env.clock link.blob ks ∧ applyAll w.env (commands link.channel) ks = w.after sent

theorem Follows.push {sent : List Frame} {link : Link} (h : Follows w sent link) (frame : Frame) :
    Follows w (sent ++ [frame]) { link with channel := link.channel ++ [frame] } := by
  obtain ⟨ks, hloads, hks⟩ := h
  refine ⟨ks, hloads, ?_⟩
  rw [Replayer.after, commands_append, commands_append, applyAll_append, applyAll_append, hks]
  rfl

end

variable {words : List Bytes}

theorem storable_new (c : Clock) : ((Store.new : Store F).live c).Storable c :=
  ⟨sound_new c, fun _ => Slot.bounded_none⟩

def Replayer.plain : Replayer Score where
  env := Env.still
  origin := (Store.new : Store Score).live .zero
  unlimited := rfl
  storable := storable_new .zero

def setCommand (words : List Bytes) : Command :=
  ⟨Env.still, setFrame (txt "k") (txt "v") words, none⟩

theorem admitted_plainSet : (setCommand plainWords).Admitted Replayer.plain where
  clock := rfl
  unlimited := rfl
  fits := ttlFits_plain
  read := by
    rw [setCommand, setFrame, misreadSetKey_command commandName_set]
    decide

theorem gated_setCommand (words : List Bytes) :
    (Request.single (setCommand words)).program (F := F) cfg =
      runWrite cfg true Env.still (setFrame (txt "k") (txt "v") words) := by
  have hwrite := isSome_of_eq_some (setFrame_isWrite (txt "k") (txt "v") words)
  have hname (name : String) (h : asciiUpper (txt "SET") ≠ txt name) :
      isNamed name (setFrame (txt "k") (txt "v") words) = false :=
    decide_eq_false h
  have hsave := hname "SAVE" (by decide)
  have hrewrite := hname "BGREWRITEAOF" (by decide)
  have hpublish := hname "PUBLISH" (by decide)
  simp only [Request.program, dispatchAndLogGated, setCommand, hsave, hrewrite, hpublish, hwrite,
    Bool.false_eq_true, if_false, if_true]

def loggedSet (words : List Bytes) : List Frame :=
  toLog .zero (setFrame (txt "k") (txt "v") words) okReply

theorem loggedSet_plain_size :
    (((loggedSet plainWords).map fun f => (encode .resp2 f).length).sum : Int) ≤ i64Max := by
  decide

theorem loggedSet_misread_size :
    (((loggedSet misreadWords).map fun f => (encode .resp2 f).length).sum : Int) ≤ i64Max := by
  decide

theorem set_alone (cfg : Settings) (i : Nat) {s : Node Score}
    (hstore : s.store = .new) (hfree : ∀ j, s.guards j = none)
    (hreply : (runEngine Env.still (dispatch Env.still
      (setFrame (txt "k") (txt "v") words)) (Store.new : Store Score)).1 = some okReply)
    (hroom : s.Room ((loggedSet words).map fun f => (encode .resp2 f).length).sum) :
    ∃ s' : Node Score,
      Alone cfg i ((Request.single (setCommand words)).program cfg) s okReply s' ∧
      s'.store = (runEngine Env.still (dispatch Env.still
        (setFrame (txt "k") (txt "v") words)) (Store.new : Store Score)).2 ∧
      s'.frames = s.frames ++ loggedSet words ∧
      s'.fanout.links = fun l => (s.fanout.links l).map fun link =>
        { link with channel := link.channel ++ loggedSet words } := by
  have hrun : runEngine Env.still (dispatch Env.still
      (setFrame (txt "k") (txt "v") words)) s.store = (some okReply, _) :=
    Prod.ext (hstore ▸ hreply) rfl
  obtain ⟨disk, synced, fanout, halone, hlinks⟩ := runWrite_alone hfree hrun hroom
  rw [gated_setCommand]
  refine ⟨_, halone, by rw [hstore], ?_, hlinks⟩
  simp [Node.frames, loggedSet]
  rfl

theorem room_new {n : Nat} (h : (n : Int) ≤ i64Max) : (Node.new cfg : Node F).Room n := by
  intro f hf
  have hempty : update (fun _ => none) (cfg.aofFile 0) (some File.empty) (cfg.aofFile 0) =
      some f := hf
  rw [update_self] at hempty
  obtain rfl := some.inj hempty
  simpa using h

theorem loggedSet_isWrite (words : List Bytes) : commands (loggedSet words) = loggedSet words :=
  commands_of_isWrite (toLog_isWrite _ _ _)

theorem set_serves (cfg : Settings)
    (hreply : (runEngine Env.still (dispatch Env.still
      (setFrame (txt "k") (txt "v") words)) (Store.new : Store Score)).1 = some okReply)
    (hsize : (((loggedSet words).map fun f => (encode .resp2 f).length).sum : Int) ≤ i64Max) :
    ∃ final : ServerConfig Score,
      (server Score cfg).Reaches Smooth
        (serving cfg (Node.new cfg) fun i => [Request.single (setCommand words)][i]?) final ∧
      final.Settled ∧ final.shared.frames = loggedSet words ∧
      final.shared.store = (runEngine Env.still (dispatch Env.still
        (setFrame (txt "k") (txt "v") words)) (Store.new : Store Score)).2 := by
  obtain ⟨s', halone, hstore, hframes, -⟩ := set_alone cfg 0 (s := Node.new cfg) rfl
    (fun _ => rfl) hreply (room_new hsize)
  obtain ⟨final, hreach, rfl, hsettled⟩ := (InTurn.cons halone (.nil _ _)).reaches
  exact ⟨final, hreach, hsettled, hframes, hstore⟩

/-- A server whose replicas are these. -/
def Node.feeding (cfg : Settings) (links : Nat → Option Link) : Node F :=
  { Node.new cfg with fanout := { Fanout.new with links } }

theorem serialize_new_length (offset : Nat) :
    ((serialize Env.still (Store.new : Store Score) offset).length : Int) ≤ i64Max := by
  rw [serialize_length]
  decide

theorem set_follows_handoff (cfg : Settings) (links : Nat → Option Link)
    (hreply : (runEngine Env.still (dispatch Env.still
      (setFrame (txt "k") (txt "v") words)) (Store.new : Store Score)).1 = some okReply)
    (hsize : (((loggedSet words).map fun f => (encode .resp2 f).length).sum : Int) ≤ i64Max) :
    ∃ final : ServerConfig Score,
      (server Score cfg).Reaches Smooth (serving cfg (.feeding cfg links)
        fun i => [.psync Env.still, .single (setCommand words)][i]?) final ∧
      final.Settled ∧
      final.shared.fanout.links 0 =
        some ⟨serialize Env.still (Store.new : Store Score) 0, loggedSet words⟩ ∧
      final.shared.store = (runEngine Env.still (dispatch Env.still
        (setFrame (txt "k") (txt "v") words)) (Store.new : Store Score)).2 := by
  have hempty : (Node.new cfg : Node Score).Room
      ((loggedSet words).map fun f => (encode .resp2 f).length).sum := room_new hsize
  obtain ⟨handed, hhandoff, hnew, hfree, hroom, hlink⟩ : ∃ handed : Node Score,
      Alone cfg 0 ((Request.psync Env.still).program cfg) (.feeding cfg links) .null handed ∧
      handed.store = .new ∧ (∀ j, handed.guards j = none) ∧
      handed.Room ((loggedSet words).map fun f => (encode .resp2 f).length).sum ∧
      handed.fanout.links 0 = some ⟨serialize Env.still (Store.new : Store Score) 0, []⟩ :=
    ⟨_, serveReplicaHandoff_alone cfg 0 Env.still (fun _ => rfl) (serialize_new_length 0), rfl,
      fun _ => rfl, fun f hf => hempty f hf, rfl⟩
  obtain ⟨s', halone, hstore, -, hlinks⟩ := set_alone cfg 1 hnew hfree hreply hroom
  obtain ⟨final, hreach, rfl, hsettled⟩ := (InTurn.cons hhandoff (.cons halone (.nil _ _))).reaches
  refine ⟨final, hreach, hsettled, ?_, hstore⟩
  rw [hlinks]
  dsimp only
  rw [hlink]
  rfl

theorem handoff_admitted {w : Replayer Score} (hw : w.env = Env.still)
    (h : (setCommand words).Admitted w) (i : Nat) (r : Request)
    (hr : [.psync Env.still, .single (setCommand words)][i]? = some r) : r.Admitted w := by
  have hmem := List.mem_of_getElem? hr
  rcases List.mem_cons.mp hmem with rfl | hmem
  · exact congrArg Env.clock hw.symm
  · rw [List.mem_singleton.mp hmem]
    exact fun _ => h

/-- A replica is there, another one attaches, and a client writes. -/
theorem writers_serializable_set :
    ∃ (final : ServerConfig Score) (received : List Frame),
      (server Score .eachSecond).Reaches AppendsSucceed
        (serving .eachSecond (.feeding .eachSecond (update (fun _ => none) 2 (some ⟨[], []⟩)))
          fun i => [.psync Env.still, .single (setCommand plainWords)][i]?) final ∧
      final.shared.store.live .zero =
        (dispatchAll Env.still (commands final.shared.frames) Store.new).live .zero ∧
      final.shared.fanout.links 2 = some ⟨[], received⟩ ∧
      final.shared.store.live .zero =
        (dispatchAll Env.still (commands received) Store.new).live .zero := by
  let node : Node Score := .feeding .eachSecond (update (fun _ => none) 2 (some ⟨[], []⟩))
  have hready : node.Ready .plain := ⟨rfl, fun _ => rfl, rfl, rfl⟩
  obtain ⟨final, hreach, hsettled, -, -⟩ := set_follows_handoff .eachSecond _ runEngine_plain
    loggedSet_plain_size
  have hrun := hreach.mono fun _ _ _ _ h => h.2
  obtain ⟨hlog, hreplicas⟩ := writers_serializable hready (handoff_admitted rfl admitted_plainSet)
    hrun hsettled
  obtain ⟨received, hlink, hlive⟩ := hreplicas 2 ⟨[], []⟩ rfl rfl
  exact ⟨final, received, hrun, hlog, hlink, hlive⟩

/-- The SET whose flags the rewriter misreads: the key is there, and the log does not set it. -/
theorem writers_not_always_serializable :
    ∃ final : ServerConfig Score,
      (server Score .eachSecond).Reaches AppendsSucceed
        (serving .eachSecond (Node.new .eachSecond)
          fun i => [Request.single (setCommand misreadWords)][i]?) final ∧
      final.Settled ∧
      final.shared.store.live .zero ≠
        (dispatchAll Env.still (commands final.shared.frames) Store.new).live .zero := by
  obtain ⟨final, hreach, hsettled, hframes, hstore⟩ := set_serves .eachSecond
    runEngine_misread loggedSet_misread_size
  refine ⟨final, hreach.mono fun _ _ _ _ h => h.2, hsettled, fun hsame => ?_⟩
  rw [hstore, hframes, loggedSet_isWrite] at hsame
  exact not_logSimulates_misread hsame.symm

end RocketMem
