import RocketMem.Protocol.Stream
import RocketMem.Server.Contract

namespace RocketMem

open List Option Function

variable {F : Type} [F64 F]

def headerOf (blob : Bytes) : Nat := ofLeBytes (blob.take 8)

def bytesOf (frames : List Frame) : Nat := (frames.map fun f => (encode .resp2 f).length).sum

def Fanout.owed (f : Fanout) : Nat := (f.outstanding.map Prod.snd).sum

/-- The offset accounts for every byte a replica has been sent since its snapshot and every byte
it is still to be sent. -/
structure Accounts (f : Fanout) (link : Link) : Prop where
  offset : f.masterOffset = UInt64.ofNat (headerOf link.blob + bytesOf link.channel + f.owed)
  wire : ∀ frame ∈ link.channel, WireFrame frame

structure OffsetInv (l : Nat) (s : Node F) : Prop where
  accounts : ∀ link, s.fanout.links l = some link → Accounts s.fanout link
  handoff : ∀ offset, s.fanout.attaching l = some offset → (∀ j, s.guards j = some l) →
    s.fanout.masterOffset = offset ∧ s.fanout.outstanding = []

structure OffsetRely (i : Nat) (s s' : Node F) : Prop where
  guards : ∀ j, s.guards j = some i ↔ s'.guards j = some i
  attaching : s'.fanout.attaching i = s.fanout.attaching i
  owes : ∀ n, s'.fanout.outstanding.count (i, n) = s.fanout.outstanding.count (i, n)

def OwesNothing (i : Nat) (s : Node F) : Prop := ∀ n, s.fanout.outstanding.count (i, n) = 0

def offsets (F : Type) [F64 F] (l : Nat) : Discipline (ServerOp F) (Node F) where
  inv := OffsetInv l
  rely := OffsetRely
  asserts _ _ _ := True
  absent := OwesNothing
  rely_refl _ _ := ⟨fun _ => Iff.rfl, rfl, fun _ => rfl⟩
  rely_trans h h' := ⟨fun j => (h.guards j).trans (h'.guards j), h'.attaching.trans h.attaching,
    fun n => (h'.owes n).trans (h.owes n)⟩
  absent_stable h _ ha n := (h.owes n).trans (ha n)

/-- While the handoff of `l` is between reading the offset and registering, nobody moves the offset
on without a guard; and when it reads the offset, every frame the offset counts has been fanned
out. -/
def CountsFanned (l i : Nat) (_ : Option Fault) (o : ServerOp F) (s : Node F) : Prop :=
  match o with
  | .fanout (.advanceMasterReplOffset _) =>
    (∀ j, s.guards j ≠ some i) → s.fanout.attaching l = none
  | .fanout .masterReplOffset => i = l → s.fanout.outstanding = []
  | _ => True

structure Stands (i : Nat) (L : Finset (Fin shardCount)) (owes : List Nat)
    (attaching : Option UInt64) (s : Node F) : Prop where
  guards : ∀ j, s.guards j = some i ↔ j ∈ L
  owes : ∀ n, s.fanout.outstanding.count (i, n) = owes.count n
  attaching : s.fanout.attaching i = attaching

section

variable {l i : Nat} {L : Finset (Fin shardCount)} {owes : List Nat} {att : Option UInt64}
  {s s' : Node F}

theorem Stands.stable : (offsets F l).Stable i (Stands i L owes att) := by
  intro s s' hrely _ h
  refine ⟨fun j => (hrely.guards j).symm.trans (h.guards j), fun n => ?_, ?_⟩
  · rw [hrely.owes, h.owes]
  · rw [hrely.attaching, h.attaching]

theorem offsets_keeps (hinv : OffsetInv l s) (hguards : s'.guards = s.guards)
    (hfanout : s'.fanout = s.fanout) : (offsets F l).Keeps i s s' := by
  refine ⟨⟨?_, ?_⟩, fun j _ => ⟨fun j' => ?_, ?_, fun n => ?_⟩⟩
  · rw [hfanout]
    exact hinv.accounts
  · rw [hfanout, hguards]
    exact hinv.handoff
  · rw [hguards]
  · rw [hfanout]
  · rw [hfanout]

theorem Stands.congr (h : Stands i L owes att s) (hguards : s'.guards = s.guards)
    (hfanout : s'.fanout = s.fanout) : Stands i L owes att s' := by
  refine ⟨?_, ?_, ?_⟩
  · rw [hguards]
    exact h.guards
  · rw [hfanout]
    exact h.owes
  · rw [hfanout]
    exact h.attaching

theorem Stands.release (hinv : OffsetInv l s) (h : Stands i L owes att s)
    (hguards : ∀ j, s'.guards j = if s.guards j = some i then none else s.guards j)
    (hfanout : s'.fanout = s.fanout) : (offsets F l).Keeps i s s' ∧ Stands i ∅ owes att s' := by
  refine ⟨⟨⟨?_, ?_⟩, fun j hj => ⟨fun j' => ?_, ?_, fun n => ?_⟩⟩, fun j => ?_, ?_, ?_⟩
  · rw [hfanout]
    exact hinv.accounts
  · intro offset hoffset hall
    rw [hfanout] at hoffset ⊢
    refine hinv.handoff offset hoffset fun j => ?_
    have hj := hall j
    rw [hguards] at hj
    split at hj
    · cases hj
    · exact hj
  · rw [hguards]
    split
    · next hi =>
      rw [hi]
      exact ⟨fun h => absurd (some.inj h).symm hj, nofun⟩
    · rfl
  · rw [hfanout]
  · rw [hfanout]
  · rw [hguards]
    split
    · simp
    · next hi => simp [hi]
  · rw [hfanout]
    exact h.owes
  · rw [hfanout]
    exact h.attaching

theorem Stands.unwind (hinv : OffsetInv l s) (h : Stands i L [] att s) (cfg : Settings) :
    (offsets F l).Keeps i s ((server F cfg).unwind i s) ∧
      (offsets F l).absent i ((server F cfg).unwind i s) := by
  obtain ⟨hkeeps, hend⟩ : (offsets F l).Keeps i s ((server F cfg).unwind i s) ∧
      Stands i ∅ [] att ((server F cfg).unwind i s) :=
    h.release hinv (fun _ => rfl) rfl
  exact ⟨hkeeps, hend.owes⟩

end

section

variable {l : Nat} {cfg : Settings} {i : Nat} {L : Finset (Fin shardCount)} {att : Option UInt64}
  {α : Type}

abbrev OffsetTriple (F : Type) [F64 F] {α : Type} (l : Nat) (cfg : Settings) (i : Nat)
    (P : Node F → Prop) (p : ServerProgram F α) (Q : α → Node F → Prop) : Prop :=
  (offsets F l).Triple (server F cfg) (CountsFanned l) i P p Q

theorem aside_triple {p : ServerProgram F α} (hp : p.Calls ServerOp.Aside) :
    OffsetTriple F l cfg i (Stands i L [] att) p fun _ => Stands i L [] att := by
  refine .of_calls hp Stands.stable (fun s hinv hs => hs.unwind hinv cfg) (fun _ _ _ _ _ => trivial) ?_
  intro o ho s hinv hs x r s' _ hx
  obtain ⟨hguards, hfanout⟩ := ho.exec hx
  exact ⟨offsets_keeps hinv hguards hfanout, hs.congr hguards hfanout⟩

theorem offsets_locking :
    Locking (offsets F l) cfg (CountsFanned l) i fun L => Stands i L [] none where
  stable _ := Stands.stable
  lock j L := by
    have hstable : (offsets F l).Stable i fun s => j ∉ L ∧ Stands i (insert j L) [] none s :=
      fun s s' hrely hinv h => ⟨h.1, Stands.stable s s' hrely hinv h.2⟩
    refine .perform Stands.stable (fun _ => hstable) (fun _ _ _ => trivial) ?_
    intro s hinv hs x r s' _ hx
    obtain ⟨hfree, rfl⟩ := exec_lockShard hx
    refine ⟨⟨⟨hinv.accounts, fun offset hoffset hall => ?_⟩, fun i' hi' => ⟨fun j' => ?_, rfl,
      fun _ => rfl⟩⟩, fun hj => ?_, fun j' => ?_, hs.owes, hs.attaching⟩
    · -- a thread that takes guards has not read an offset yet
      have hown := hall j
      rw [Node.takeShard_guards, if_pos rfl] at hown
      obtain rfl := some.inj hown
      cases hs.attaching.symm.trans hoffset
    · rw [Node.takeShard_guards]
      split
      · next hj =>
        rw [hj, hfree]
        exact ⟨nofun, fun h => absurd (some.inj h).symm hi'⟩
      · rfl
    · rw [(hs.guards j).mpr hj] at hfree
      cases hfree
    · rw [Node.takeShard_guards]
      split
      · next hj => simp [hj]
      · next hj => simp [hs.guards, hj]
  unlock L := by
    refine .perform Stands.stable (fun _ => Stands.stable) (fun _ _ _ => trivial) ?_
    intro s hinv hs x r s' _ hx
    obtain rfl := some.inj (congrArg (Option.map Prod.snd) hx)
    exact hs.release hinv (fun _ => rfl) rfl

theorem advance_triple (n : Nat) :
    OffsetTriple F l cfg i (Stands i L [] none)
      (perform (.fanout (.advanceMasterReplOffset n))) fun _ => Stands i L [n] none := by
  refine .perform Stands.stable (fun _ => Stands.stable) (fun _ _ _ => trivial) ?_
  intro s hinv hs x r s' hpermits hx
  obtain rfl := congrArg Prod.snd (some.inj hx)
  have hcount (i' m : Nat) : (s.fanout.outstanding ++ [(i, n)]).count (i', m) =
      s.fanout.outstanding.count (i', m) + if i = i' ∧ n = m then 1 else 0 := by
    simp [count_append, count_singleton]
  have howed (f : Fanout) : Fanout.owed { f with
      masterOffset := f.masterOffset + UInt64.ofNat n, outstanding := f.outstanding ++ [(i, n)] } =
      f.owed + n := by
    simp [Fanout.owed]
  refine ⟨⟨⟨fun link hlink => ?_, fun offset hoffset hall => ?_⟩, fun i' hi' => ⟨fun _ => Iff.rfl,
    rfl, fun m => ?_⟩⟩, hs.guards, fun m => ?_, hs.attaching⟩
  · have hold := hinv.accounts link hlink
    refine ⟨?_, hold.wire⟩
    change s.fanout.masterOffset + UInt64.ofNat n = UInt64.ofNat (_ + Fanout.owed { s.fanout with
      masterOffset := s.fanout.masterOffset + UInt64.ofNat n,
      outstanding := s.fanout.outstanding ++ [(i, n)] })
    rw [howed, hold.offset, ← UInt64.ofNat_add, Nat.add_assoc]
  · -- whoever is attaching holds every guard, and then only its own steps move the offset
    exfalso
    have hfree (j : Fin shardCount) : s.guards j ≠ some i := by
      intro hj
      obtain rfl := some.inj ((hall j).symm.trans hj)
      cases hs.attaching.symm.trans hoffset
    cases (hpermits hfree).symm.trans hoffset
  · change (s.fanout.outstanding ++ [(i, n)]).count (i', m) = _
    rw [hcount, if_neg fun h => hi' h.1.symm, Nat.add_zero]
  · change (s.fanout.outstanding ++ [(i, n)]).count (i, m) = _
    rw [hcount, hs.owes]
    simp [count_singleton]

theorem broadcast_pays {frame : Frame} (hframe : WireFrame frame) :
    OffsetTriple F l cfg i
      (Stands i L [(encode .resp2 frame).length] none) (perform (.broadcast frame))
      fun _ => Stands i L [] none := by
  refine .perform Stands.stable (fun _ => Stands.stable) (fun _ _ _ => trivial) ?_
  intro s hinv hs x r s' _ hx
  obtain rfl := congrArg Prod.snd (some.inj hx)
  set n := (encode .resp2 frame).length with hn
  have hmem : (i, n) ∈ s.fanout.outstanding := by
    rw [← count_pos_iff, hs.owes]
    simp
  have hcount (i' m : Nat) : (s.fanout.outstanding.erase (i, n)).count (i', m) =
      s.fanout.outstanding.count (i', m) - if i = i' ∧ n = m then 1 else 0 := by
    simp [count_erase]
  have howed : ((s.fanout.outstanding.erase (i, n)).map Prod.snd).sum + n = s.fanout.owed := by
    have hsum := ((perm_cons_erase hmem).map Prod.snd).sum_eq
    rw [map_cons, sum_cons] at hsum
    rw [Fanout.owed, hsum, Nat.add_comm]
  refine ⟨⟨⟨fun link hlink => ?_, fun offset hoffset hall => ?_⟩, fun i' hi' => ⟨fun _ => Iff.rfl,
    rfl, fun m => ?_⟩⟩, hs.guards, fun m => ?_, hs.attaching⟩
  · obtain ⟨old, hold, rfl⟩ := map_eq_some_iff.mp hlink
    have haccounts := hinv.accounts old hold
    refine ⟨?_, fun f hf => ?_⟩
    · change s.fanout.masterOffset = UInt64.ofNat (headerOf old.blob +
        bytesOf (old.channel ++ [frame]) + ((s.fanout.outstanding.erase (i, n)).map Prod.snd).sum)
      rw [haccounts.offset, ← howed]
      congr 1
      simp only [bytesOf, map_append, map_cons, map_nil, sum_append, sum_cons, sum_nil, ← hn]
      omega
    · rcases mem_append.mp hf with hf | hf
      · exact haccounts.wire f hf
      · rw [mem_singleton.mp hf]
        exact hframe
  · -- nothing is outstanding during a handoff
    rw [(hinv.handoff offset hoffset hall).2] at hmem
    cases hmem
  · change (s.fanout.outstanding.erase (i, n)).count (i', m) = _
    rw [hcount, if_neg fun h => hi' h.1.symm, Nat.sub_zero]
  · change (s.fanout.outstanding.erase (i, n)).count (i, m) = _
    rw [hcount, hs.owes]
    simp [count_singleton]

theorem replicate_pays {frame : Frame} (hframe : WireFrame frame) :
    OffsetTriple F l cfg i (Stands i L [] none) (replicate frame) fun _ => Stands i L [] none :=
  .bind (advance_triple _) fun _ => broadcast_pays hframe

def Command.Publishable (c : Command) : Prop :=
  isNamed "PUBLISH" c.frame = true → ∃ buf n, decode buf = .ok c.frame n

theorem runPublish_pays {frame : Frame} (hframe : WireFrame frame) :
    OffsetTriple F l cfg i (Stands i L [] none) (runPublish frame) fun _ => Stands i L [] none := by
  unfold runPublish
  split
  · next channel message _ =>
    have hpublish : OffsetTriple F l cfg i (Stands i L [] none)
        (perform (.fanout (.publish channel message))) fun _ => Stands i L [] none := by
      refine .perform Stands.stable (fun _ => Stands.stable) (fun _ _ _ => trivial) ?_
      intro s hinv hs x r s' _ hx
      obtain rfl := congrArg Prod.snd (some.inj hx)
      exact ⟨⟨⟨fun link hlink => ⟨(hinv.accounts link hlink).offset, (hinv.accounts link hlink).wire⟩,
        hinv.handoff⟩, fun _ _ => ⟨fun _ => Iff.rfl, rfl, fun _ => rfl⟩⟩,
        hs.guards, hs.owes, hs.attaching⟩
    refine .bind hpublish fun delivered => .bind (replicate_pays hframe) fun _ => ?_
    exact .ret Stands.stable fun _ _ hs => hs
  · exact .ret Stands.stable fun _ _ hs => hs

theorem offsets_persisting :
    Persisting (offsets F l) cfg (CountsFanned l) i (fun _ => True) fun L => Stands i L [] none where
  locking := offsets_locking
  file o L ho := by
    refine aside_triple (.perform ?_)
    cases o <;> first | exact ho.elim | trivial
  snapshot env offset _ :=
    aside_triple (takeSnapshot_calls (fun _ => trivial) (fun _ => trivial) offset)

theorem appendEncoded_aside (frame : Frame) :
    OffsetTriple F l cfg i (Stands i L [] none)
      (appendEncoded cfg frame) fun _ => Stands i L [] none :=
  appendEncoded_keeps Stands.stable (aside_triple (.perform trivial))
    (aside_triple (.perform trivial))

theorem offsets_upholds :
    Upholds (offsets F l) cfg (CountsFanned l) i Command.Publishable
      fun L => Stands i L [] none where
  stable _ := Stands.stable
  write _ _ _ _ _ hw := mutateAndLog_keeps Stands.stable hw
    (aside_triple (liftEngine_calls_any (fun _ => trivial) _))
    (fun words _ => appendEncoded_aside (.command words))
    fun words => replicate_pays (.command words)
  read _ _ _ _ := aside_triple (liftEngine_calls_any (fun _ => trivial) _)
  publish _ _ hc hname := by
    obtain ⟨_, _, hdecode⟩ := hc hname
    exact runPublish_pays (decode_wire hdecode)
  save _ _ _ _ := offsets_persisting.handleSave trivial
  rewrite _ _ _ _ := offsets_persisting.handleBgrewriteaof trivial

theorem appendTransactionMarker_pays (mk : Marker) :
    OffsetTriple F l cfg i (Stands i L [] none)
      (appendTransactionMarker cfg mk) fun _ => Stands i L [] none := by
  refine .bind (appendEncoded_aside _) fun _ => replicate_pays ?_
  cases mk
  · exact .command [txt "MULTI"]
  · exact .command [txt "EXEC"]

theorem offsets_contract :
    Contract (offsets F l) cfg (CountsFanned l) i Command.Publishable
      (fun L => Stands i L [] none) fun L => Stands i L [] none where
  lockKeys := offsets_locking.lockKeys
  unlock := offsets_locking.unlock
  outside := offsets_upholds
  inside := offsets_upholds
  multi _ _ := appendTransactionMarker_pays .multi
  exec _ _ := appendTransactionMarker_pays .exec

theorem headerOf_serializeEntries (env : Env) (offset : UInt64) (entries : List (SnapshotEntry F)) :
    headerOf (serializeEntries env offset.toNat entries) = offset.toNat := by
  rw [headerOf, serializeEntries, take_left' (length_leBytes 8 offset.toNat)]
  exact ofLeBytes_leBytes 8 offset.toNat offset.toNat_lt

theorem takeSnapshot_header (env : Env) (offset : UInt64) :
    OffsetTriple F l cfg i (Stands i L [] att)
      (takeSnapshot env offset.toNat) fun blob s =>
        headerOf blob = offset.toNat ∧ Stands i L [] att s := by
  refine .bind (aside_triple (snapshotEntries_calls (fun _ => trivial) _)) fun entries => ?_
  refine .bind (aside_triple (.perform trivial)) fun _ => ?_
  dsimp only
  split
  · exact .ret Stands.stable fun s _ hs => ⟨headerOf_serializeEntries env offset entries, hs⟩
  · exact .halt Stands.stable fun s hinv hs => hs.unwind hinv cfg

theorem masterReplOffset_triple :
    OffsetTriple F l cfg i (Stands i Finset.univ [] none)
      (perform (.fanout .masterReplOffset)) fun offset => Stands i Finset.univ [] (some offset) := by
  refine .perform Stands.stable (fun _ => Stands.stable) (fun _ _ _ => trivial) ?_
  intro s hinv hs x r s' hpermits hx
  obtain ⟨rfl, rfl⟩ := Prod.mk.inj (some.inj hx)
  refine ⟨⟨⟨fun link hlink => ?_, fun offset hoffset hall => ?_⟩, fun i' hi' => ⟨fun _ => Iff.rfl,
    update_of_ne hi' _ _, fun _ => rfl⟩⟩, hs.guards, hs.owes, update_self ..⟩
  · exact ⟨(hinv.accounts link hlink).offset, (hinv.accounts link hlink).wire⟩
  · change update s.fanout.attaching i (some s.fanout.masterOffset) l = some offset at hoffset
    by_cases hli : l = i
    · subst hli
      rw [update_self] at hoffset
      exact ⟨some.inj hoffset, hpermits rfl⟩
    · rw [update_of_ne hli] at hoffset
      exact hinv.handoff offset hoffset hall

theorem register_triple {blob : Bytes} {offset : UInt64} (hblob : headerOf blob = offset.toNat) :
    OffsetTriple F l cfg i
      (Stands i Finset.univ [] (some offset)) (perform (.fanout (.register blob)))
      fun _ => Stands i Finset.univ [] none := by
  refine .perform Stands.stable (fun _ => Stands.stable) (fun _ _ _ => trivial) ?_
  intro s hinv hs x r s' _ hx
  obtain rfl := congrArg Prod.snd (some.inj hx)
  refine ⟨⟨⟨fun link hlink => ?_, fun off hoff hall => ?_⟩, fun i' hi' => ⟨fun _ => Iff.rfl,
    update_of_ne hi' _ _, fun _ => rfl⟩⟩, hs.guards, hs.owes, update_self ..⟩
  · change update s.fanout.links i (some ⟨blob, []⟩) l = some link at hlink
    by_cases hli : l = i
    · subst hli
      rw [update_self] at hlink
      obtain rfl := some.inj hlink
      obtain ⟨hoffset, hnone⟩ := hinv.handoff offset hs.attaching
        fun j => (hs.guards j).mpr (Finset.mem_univ j)
      refine ⟨?_, nofun⟩
      change s.fanout.masterOffset =
        UInt64.ofNat (headerOf blob + 0 + (s.fanout.outstanding.map Prod.snd).sum)
      rw [hnone, hblob, hoffset]
      exact UInt64.ofNat_toNat.symm
    · rw [update_of_ne hli] at hlink
      exact ⟨(hinv.accounts link hlink).offset, (hinv.accounts link hlink).wire⟩
  · change update s.fanout.attaching i none l = some off at hoff
    by_cases hli : l = i
    · subst hli
      rw [update_self] at hoff
      cases hoff
    · rw [update_of_ne hli] at hoff
      exact hinv.handoff off hoff hall

theorem serveReplicaHandoff_registers (env : Env) :
    OffsetTriple F l cfg i (Stands i ∅ [] none)
      (serveReplicaHandoff env) fun _ => Stands i ∅ [] none := by
  refine .bind offsets_locking.lockAllShards fun _ => ?_
  rintro s ⟨-, hs⟩
  refine Discipline.Triple.bind masterReplOffset_triple (fun offset => ?_) s hs
  refine .bind (takeSnapshot_header env offset) fun blob => ?_
  rintro s ⟨hblob, hs⟩
  refine Discipline.Triple.bind (register_triple hblob) (fun _ => ?_) s hs
  exact .bind (offsets_locking.unlock _) fun _ => .ret Stands.stable fun _ _ hs => hs

def Request.Publishable : Request → Prop
  | single c => c.answered = none → c.Publishable
  | exec queued => ∀ c ∈ queued, c.answered = none → c.Publishable
  | psync _ | fsync => True

theorem request_pays {r : Request} (h : r.Publishable) :
    OffsetTriple F l cfg i (Stands i ∅ [] none) (r.program cfg) fun _ => Stands i ∅ [] none := by
  cases r with
  | single c => exact offsets_contract.single h
  | exec queued => exact offsets_contract.handleExec h
  | psync env => exact serveReplicaHandoff_registers env
  | fsync => exact .bind (aside_triple (.perform trivial)) fun _ => offsets_upholds.ret _

end

variable {l : Nat} {cfg : Settings} {node : Node F} {requests : Nat → Option Request}
  {final : ServerConfig F}

structure Node.Quiet (l : Nat) (s : Node F) : Prop where
  guards : ∀ j, s.guards j = none
  attaching : ∀ i, s.fanout.attaching i = none
  outstanding : s.fanout.outstanding = []
  links : s.fanout.links l = none

theorem serving_pays (hquiet : node.Quiet l)
    (hrequests : ∀ i r, requests i = some r → r.Publishable) :
    (offsets F l).Sustains (server F cfg) (CountsFanned l) (fun i _ => Stands i ∅ [] none)
      (serving cfg node requests) := by
  have hinv : OffsetInv l node := by
    refine ⟨fun link hlink => ?_, fun offset hoffset => ?_⟩
    · cases hquiet.links.symm.trans hlink
    · cases (hquiet.attaching l).symm.trans hoffset
  have howes (i n : Nat) : node.fanout.outstanding.count (i, n) = 0 := by
    rw [hquiet.outstanding]
    rfl
  refine ⟨hinv, fun i p hp => ?_, fun i _ n => howes i n⟩
  obtain ⟨r, hr, rfl⟩ := map_eq_some_iff.mp hp
  refine request_pays (hrequests i r hr) node ⟨fun j => ?_, howes i, hquiet.attaching i⟩
  rw [hquiet.guards j]
  simp

theorem settled_accounts (hquiet : node.Quiet l)
    (hrequests : ∀ i r, requests i = some r → r.Publishable)
    (hrun : (server F cfg).Reaches (CountsFanned l) (serving cfg node requests) final)
    (hsettled : final.Settled) {link : Link} (hlink : final.shared.fanout.links l = some link) :
    final.shared.fanout.masterOffset = UInt64.ofNat (headerOf link.blob + bytesOf link.channel) ∧
      ∀ frame ∈ link.channel, WireFrame frame := by
  have h := Discipline.sound (serving_pays hquiet hrequests) hrun
  have hnone : final.shared.fanout.outstanding = [] := by
    refine eq_nil_iff_forall_not_mem.mpr fun ⟨i, n⟩ hmem => ?_
    have hpos := count_pos_iff.mpr hmem
    have hzero : final.shared.fanout.outstanding.count (i, n) = 0 := by
      cases hi : final.threads i with
      | none => exact h.absent i hi n
      | some p =>
        obtain ⟨a, rfl⟩ := hsettled i p hi
        exact (h.ret hi).owes n
    omega
  have haccounts := h.inv.accounts link hlink
  refine ⟨?_, haccounts.wire⟩
  rw [haccounts.offset, Fanout.owed, hnone]
  rfl

end RocketMem
