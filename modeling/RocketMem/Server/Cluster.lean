import Mathlib.Data.List.Sort
import RocketMem.Server.Dispatch
import RocketMem.Server.Files

namespace RocketMem

open List

def slotCount : Nat := 16384

def crcStep (crc : UInt16) : UInt16 :=
  if crc &&& 0x8000 ≠ 0 then (crc <<< 1) ^^^ 0x1021 else crc <<< 1

def crc16 (data : Bytes) : UInt16 :=
  data.foldl (fun crc byte => Nat.iterate crcStep 8 (crc ^^^ byte.toUInt16 <<< (8 : UInt16))) 0

/-- What stands between the first brace and the next closing one, unless that is nothing; else the
whole key. -/
def hashTag (key : Bytes) : Bytes :=
  match key.findIdx? (· = 123) with
  | none => key
  | some start =>
    let rest := key.drop (start + 1)
    match rest.findIdx? (· = 125) with
    | none | some 0 => key
    | some len => rest.take len

def keySlot (key : Bytes) : Fin slotCount :=
  ⟨(crc16 (hashTag key)).toNat % slotCount, Nat.mod_lt _ (by decide)⟩

example : crc16 (txt "A") = 0x58E5 := by decide

/-- `str::lines`: a line ends with a line feed, and a carriage return before it goes too. `acc` is
the current line, reversed. -/
def linesFrom (acc : Bytes) : Bytes → List Bytes
  | [] => if acc.isEmpty then [] else [acc.reverse]
  | 10 :: rest => (if acc.head? = some 13 then acc.tail else acc).reverse :: linesFrom [] rest
  | b :: rest => linesFrom (b :: acc) rest

def lines (text : Bytes) : List Bytes := linesFrom [] text

/-- `str::split_whitespace`; `acc` is the current field, reversed, and `skip` the number of bytes of
a separator still to be passed over. -/
def fieldsFrom (skip : Nat) (acc : Bytes) : Bytes → List Bytes
  | [] => if acc.isEmpty then [] else [acc.reverse]
  | b :: rest =>
    match skip with
    | skip + 1 => fieldsFrom skip acc rest
    | 0 =>
      match whitespace.find? (·.isPrefixOf (b :: rest)) with
      | some w =>
        (if acc.isEmpty then [] else [acc.reverse]) ++ fieldsFrom (w.length - 1) [] rest
      | none => fieldsFrom 0 (b :: acc) rest

def splitWhitespace (text : Bytes) : List Bytes := fieldsFrom 0 [] text

theorem not_cr_of_mem_fieldsFrom {skip : Nat} {acc text field : Bytes} (hacc : 13 ∉ acc)
    (h : field ∈ fieldsFrom skip acc text) : 13 ∉ field := by
  have hcurrent {acc : Bytes} (hacc : 13 ∉ acc)
      (hf : field ∈ if acc.isEmpty then [] else [acc.reverse]) : 13 ∉ field := by
    split at hf
    · cases hf
    · rw [mem_singleton.mp hf, mem_reverse]
      exact hacc
  induction text generalizing skip acc with
  | nil => exact hcurrent hacc h
  | cons b rest ih =>
    unfold fieldsFrom at h
    split at h
    · exact ih hacc h
    · split at h
      · rcases mem_append.mp h with h | h
        · exact hcurrent hacc h
        · exact ih not_mem_nil h
      · next hnone =>
        have hb : b ≠ 13 := by
          rintro rfl
          exact find?_eq_none.mp hnone [13] (by decide) rfl
        refine ih ?_ h
        rw [mem_cons, not_or]
        exact ⟨hb.symm, hacc⟩

theorem not_cr_of_mem_splitWhitespace {text field : Bytes} (h : field ∈ splitWhitespace text) :
    13 ∉ field :=
  not_cr_of_mem_fieldsFrom not_mem_nil h

def parseU32 (b : Bytes) : Option Nat := (parseU64 b).filter fun n => decide (n < 2 ^ 32)

/-- One node of the topology. The address is echoed to clients, on one line. -/
structure ClusterNode where
  id : Bytes
  addr : Bytes
  firstSlot : Nat
  lastSlot : Nat
  ordered : firstSlot ≤ lastSlot
  oneLine : 13 ∉ addr
  deriving DecidableEq

def Contiguous : Nat → List ClusterNode → Prop
  | start, [] => start = slotCount
  | start, n :: nodes => n.firstSlot = start ∧ Contiguous (n.lastSlot + 1) nodes

/-- The nodes of a cluster, ordered by their ranges. Every slot has one owner. -/
structure Topology where
  nodes : List ClusterNode
  whole : Contiguous 0 nodes
  distinct : (nodes.map ClusterNode.id).Nodup

structure ClusterConfig extends Topology where
  myself : Fin nodes.length

def configLine (lineno : Nat) (what : Bytes) : Bytes :=
  txt "cluster config line " ++ showNat lineno ++ txt ": " ++ what

def parseSlot (lineno : Nat) (raw : Bytes) : Except Bytes Nat :=
  match parseU32 raw with
  | none =>
    .error (configLine lineno (txt "'" ++ raw ++ txt "' is not a slot number in 0..=16383"))
  | some n =>
    if slotCount ≤ n then
      .error (configLine lineno
        (txt "slot " ++ showNat n ++ txt " is out of range, the last slot is 16383"))
    else .ok n

/-- One line of a topology file; `nodes` are those of the lines before it. -/
def parseNode (lineno : Nat) (nodes : List ClusterNode) (line : Bytes) : Except Bytes ClusterNode :=
  match h : splitWhitespace line with
  | [id, addr, first, last] => do
    let firstSlot ← parseSlot lineno first
    let lastSlot ← parseSlot lineno last
    if hle : firstSlot ≤ lastSlot then
      if nodes.any fun n => n.id = id then
        .error (configLine lineno (txt "duplicate node id '" ++ id ++ txt "'"))
      else if nodes.any fun n => n.addr = addr then
        .error (configLine lineno (txt "duplicate address '" ++ addr ++ txt "'"))
      else
        .ok ⟨id, addr, firstSlot, lastSlot, hle, not_cr_of_mem_splitWhitespace
          (by rw [h]; exact .tail id mem_cons_self : addr ∈ splitWhitespace line)⟩
    else .error (configLine lineno (txt "first slot " ++ showNat firstSlot ++
      txt " is greater than last slot " ++ showNat lastSlot))
  | fields => .error (configLine lineno
      (txt "expected 4 fields (<node-id> <host:port> <first-slot> <last-slot>), found " ++
        showNat fields.length))

/-- The lines from number `lineno` on; blank lines and comments are skipped. -/
def parseLines (lineno : Nat) (nodes : List ClusterNode) : List Bytes →
    Except Bytes (List ClusterNode)
  | [] => .ok nodes
  | raw :: rest =>
    let line := trim raw
    if line.isEmpty ∨ line.head? = some 35 then parseLines (lineno + 1) nodes rest
    else
      match parseNode lineno nodes line with
      | .error e => .error e
      | .ok n => parseLines (lineno + 1) (nodes ++ [n]) rest

/-- `windows(2)`: neighbours neither overlap nor leave a gap. -/
def checkPairs : List ClusterNode → Except Bytes Unit
  | prev :: next :: rest =>
    if next.firstSlot ≤ prev.lastSlot then
      .error (txt "cluster config ranges overlap: '" ++ prev.id ++ txt "' ends at " ++
        showNat prev.lastSlot ++ txt " but '" ++ next.id ++ txt "' starts at " ++
        showNat next.firstSlot)
    else if next.firstSlot ≠ prev.lastSlot + 1 then
      .error (txt "cluster config has a slot gap: nothing owns slots " ++
        showNat (prev.lastSlot + 1) ++ txt "..=" ++ showNat (next.firstSlot - 1))
    else checkPairs (next :: rest)
  | _ => .ok ()

def checkSlots : List ClusterNode → Except Bytes Unit
  | [] => .error (txt "cluster config has no nodes")
  | first :: rest =>
    if first.firstSlot ≠ 0 then
      .error (txt "cluster config does not assign slot 0 (lowest assigned slot is " ++
        showNat first.firstSlot ++ txt ")")
    else do
      checkPairs (first :: rest)
      let last := (first :: rest).getLast nofun
      if last.lastSlot ≠ slotCount - 1 then
        .error (txt "cluster config does not assign every slot: the highest assigned slot is " ++
          showNat last.lastSlot ++ txt ", expected 16383")
      else .ok ()

theorem contiguous_of_checkPairs {n : ClusterNode} {rest : List ClusterNode}
    (h : checkPairs (n :: rest) = .ok ())
    (hlast : ((n :: rest).getLast nofun).lastSlot = slotCount - 1) :
    Contiguous n.firstSlot (n :: rest) := by
  induction rest generalizing n with
  | nil =>
    have hend : n.lastSlot = slotCount - 1 := hlast
    refine ⟨rfl, ?_⟩
    rw [Contiguous, hend]
    decide
  | cons next rest ih =>
    unfold checkPairs at h
    split at h
    · cases h
    · split at h
      · cases h
      · next hgap =>
        have hnext : next.firstSlot = n.lastSlot + 1 := not_not.mp hgap
        exact ⟨rfl, hnext ▸ ih h hlast⟩

theorem contiguous_of_checkSlots {nodes : List ClusterNode} (h : checkSlots nodes = .ok ()) :
    Contiguous 0 nodes := by
  cases nodes with
  | nil => cases h
  | cons first rest =>
    simp only [checkSlots] at h
    split at h
    · cases h
    · next hzero =>
      cases hpairs : checkPairs (first :: rest) with
      | error e =>
        rw [hpairs] at h
        cases h
      | ok u =>
        rw [hpairs] at h
        simp only [bind, Except.bind] at h
        split at h
        · cases h
        · next hlast => exact not_not.mp hzero ▸ contiguous_of_checkPairs hpairs (not_not.mp hlast)

theorem id_not_mem_of_parseNode {lineno : Nat} {nodes : List ClusterNode} {line : Bytes}
    {n : ClusterNode} (h : parseNode lineno nodes line = .ok n) :
    n.id ∉ nodes.map ClusterNode.id := by
  unfold parseNode at h
  split at h
  · next id addr first last hfields =>
    simp only [bind, Except.bind] at h
    split at h
    · cases h
    · split at h
      · cases h
      · split at h
        · split at h
          · cases h
          · next hid =>
            split at h
            · cases h
            · cases h
              intro hmem
              obtain ⟨m, hm, heq⟩ := mem_map.mp hmem
              exact hid (any_eq_true.mpr ⟨m, hm, decide_eq_true heq⟩)
        · cases h
  · cases h

theorem distinct_of_parseLines {lineno : Nat} {nodes nodes' : List ClusterNode} {ls : List Bytes}
    (hnodes : (nodes.map ClusterNode.id).Nodup) (h : parseLines lineno nodes ls = .ok nodes') :
    (nodes'.map ClusterNode.id).Nodup := by
  induction ls generalizing lineno nodes with
  | nil =>
    cases h
    exact hnodes
  | cons raw rest ih =>
    unfold parseLines at h
    dsimp only at h
    split at h
    · exact ih hnodes h
    · split at h
      · cases h
      · next n hn =>
        refine ih ?_ h
        rw [map_append, map_singleton, nodup_append]
        refine ⟨hnodes, nodup_singleton _, fun a ha b hb => ?_⟩
        rw [mem_singleton.mp hb]
        rintro rfl
        exact id_not_mem_of_parseNode hn ha

/-- The part of `ClusterConfig::parse` that is the same on every node. -/
def Topology.parse (text : Bytes) : Except Bytes Topology :=
  match hlines : parseLines 1 [] (lines text) with
  | .error e => .error e
  | .ok nodes =>
    match hslots : checkSlots (nodes.insertionSort fun a b => a.firstSlot ≤ b.firstSlot) with
    | .error e => .error e
    | .ok () => .ok
        { nodes := nodes.insertionSort fun a b => a.firstSlot ≤ b.firstSlot
          whole := contiguous_of_checkSlots hslots
          distinct := (((perm_insertionSort _ nodes).map _).nodup_iff).mpr
            (distinct_of_parseLines (by exact nodup_nil) hlines) }

def Topology.forNode (t : Topology) (nodeId : Bytes) : Except Bytes ClusterConfig :=
  match h : t.nodes.findIdx? fun n => n.id = nodeId with
  | none => .error (txt "cluster config has no node with id '" ++ nodeId ++ txt "'")
  | some i => .ok ⟨t, ⟨i, (findIdx?_eq_some_iff_findIdx_eq.mp h).1⟩⟩

namespace ClusterConfig

def parse (text nodeId : Bytes) : Except Bytes ClusterConfig := do
  let t ← Topology.parse text
  t.forNode nodeId

def me (c : ClusterConfig) : ClusterNode := c.nodes.get c.myself

def owns (c : ClusterConfig) (slot : Fin slotCount) : Bool :=
  decide (c.me.firstSlot ≤ slot.val ∧ slot.val ≤ c.me.lastSlot)

end ClusterConfig

section

variable {start : Nat} {nodes : List ClusterNode}

theorem Contiguous.covers (h : Contiguous start nodes) {slot : Nat} (hstart : start ≤ slot)
    (hslot : slot < slotCount) : ∃ n ∈ nodes, n.firstSlot ≤ slot ∧ slot ≤ n.lastSlot := by
  induction nodes generalizing start with
  | nil =>
    have hend : start = slotCount := h
    omega
  | cons n rest ih =>
    obtain ⟨hfirst, hrest⟩ := h
    by_cases hle : slot ≤ n.lastSlot
    · exact ⟨n, mem_cons_self, by omega, hle⟩
    · obtain ⟨m, hm, hslots⟩ := ih hrest (by omega)
      exact ⟨m, mem_cons_of_mem n hm, hslots⟩

theorem Contiguous.start_le (h : Contiguous start nodes) {n : ClusterNode} (hn : n ∈ nodes) :
    start ≤ n.firstSlot := by
  induction nodes generalizing start with
  | nil => cases hn
  | cons m rest ih =>
    obtain ⟨hfirst, hrest⟩ := h
    rcases mem_cons.mp hn with rfl | hn
    · exact le_of_eq hfirst.symm
    · have hlater := ih hrest hn
      have hordered := m.ordered
      omega

theorem Contiguous.unique (h : Contiguous start nodes) {n m : ClusterNode} (hn : n ∈ nodes)
    (hm : m ∈ nodes) {slot : Nat} (hsn : n.firstSlot ≤ slot ∧ slot ≤ n.lastSlot)
    (hsm : m.firstSlot ≤ slot ∧ slot ≤ m.lastSlot) : n = m := by
  induction nodes generalizing start with
  | nil => cases hn
  | cons a rest ih =>
    obtain ⟨hfirst, hrest⟩ := h
    rcases mem_cons.mp hn with hna | hn'
    · rcases mem_cons.mp hm with hma | hm'
      · rw [hna, hma]
      · have hlater := hrest.start_le hm'
        rw [hna] at hsn
        omega
    · rcases mem_cons.mp hm with hma | hm'
      · have hlater := hrest.start_le hn'
        rw [hma] at hsm
        omega
      · exact ih hrest hn' hm'

namespace Topology

variable (t : Topology) (slot : Fin slotCount)

theorem owner_isSome :
    (t.nodes.find? fun n => n.firstSlot ≤ slot.val ∧ slot.val ≤ n.lastSlot).isSome := by
  obtain ⟨n, hn, hslot⟩ := t.whole.covers (Nat.zero_le slot) slot.isLt
  exact find?_isSome.mpr ⟨n, hn, decide_eq_true hslot⟩

def ownerOf : ClusterNode :=
  (t.nodes.find? fun n => n.firstSlot ≤ slot.val ∧ slot.val ≤ n.lastSlot).get (t.owner_isSome slot)

theorem ownerOf_mem : t.ownerOf slot ∈ t.nodes :=
  mem_of_find?_eq_some (Option.some_get (t.owner_isSome slot)).symm

theorem ownerOf_range :
    (t.ownerOf slot).firstSlot ≤ slot.val ∧ slot.val ≤ (t.ownerOf slot).lastSlot := by
  have hfound := find?_some (Option.some_get (t.owner_isSome slot)).symm
  exact of_decide_eq_true hfound

end Topology

theorem ClusterConfig.owns_iff (c : ClusterConfig) (slot : Fin slotCount) :
    c.owns slot = true ↔ c.ownerOf slot = c.me := by
  constructor
  · intro h
    exact c.whole.unique (c.ownerOf_mem slot) (get_mem _ _) (c.ownerOf_range slot)
      (of_decide_eq_true h)
  · intro h
    exact decide_eq_true (h ▸ c.ownerOf_range slot)

end

def crossSlot : Frame := .error (txt "CROSSSLOT Keys in request don't hash to the same slot")

def moved (slot : Fin slotCount) (addr : Bytes) : Frame :=
  .error (txt "MOVED " ++ showNat slot.val ++ txt " " ++ addr)

/-- `cluster_redirect`: what is answered instead of the command, if anything. -/
def clusterRedirect (cluster : Option ClusterConfig) (frame : Frame) : Option Frame :=
  cluster.bind fun c =>
    match commandKeys frame with
    | [] => none
    | key :: keys =>
      if keys.all fun k => keySlot k = keySlot key then
        if c.owns (keySlot key) then none
        else some (moved (keySlot key) (c.ownerOf (keySlot key)).addr)
      else some crossSlot

def splitAddr (addr : Bytes) : Bytes × Int :=
  match addr.reverse.findIdx? (· = 58) with
  | none => (addr, 0)
  | some n =>
    (addr.take (addr.length - n - 1), (parseI64 (addr.drop (addr.length - n))).getD 0)

variable (cluster : Option ClusterConfig) (health : Option (Bytes → Bool))

/-- This node is up; a peer is when the prober says so, or when there is no prober. -/
def nodeIsReachable (myId : Bytes) (n : ClusterNode) : Bool :=
  n.id = myId || health.elim true fun isReachable => isReachable n.id

def clusterInfoText : Bytes :=
  let pfail := cluster.elim 0 fun c =>
    ((c.nodes.filter fun n => !nodeIsReachable health c.me.id n).map fun n =>
      n.lastSlot - n.firstSlot + 1).sum
  let assigned := if cluster.isSome then slotCount else 0
  let count := cluster.elim 0 fun c => c.nodes.length
  txt "cluster_enabled:" ++ showNat (if cluster.isSome then 1 else 0) ++
    txt "\r\ncluster_state:" ++ (if pfail = 0 then txt "ok" else txt "fail") ++
    txt "\r\ncluster_slots_assigned:" ++ showNat assigned ++
    txt "\r\ncluster_slots_ok:" ++ showNat (assigned - pfail) ++
    txt "\r\ncluster_slots_pfail:" ++ showNat pfail ++
    txt "\r\ncluster_slots_fail:0\r\ncluster_known_nodes:" ++ showNat count ++
    txt "\r\ncluster_size:" ++ showNat count ++
    txt "\r\ncluster_my_epoch:0\r\ncluster_current_epoch:0\r\ncluster_stats_messages_sent:0" ++
    txt "\r\ncluster_stats_messages_received:0" ++
    txt "\r\ntotal_cluster_links_buffer_limit_exceeded:0\r\n"

/-- One line per node; the bus port is the port plus 10000, wrapped as release builds wrap it. -/
def clusterNodesText : Bytes :=
  cluster.elim [] fun c => c.nodes.flatMap fun n =>
    let up := nodeIsReachable health c.me.id n
    n.id ++ txt " " ++ n.addr ++ txt "@" ++ showInt (wrapI64 ((splitAddr n.addr).2 + 10000)) ++
      txt " " ++ (if n.id = c.me.id then txt "myself,master" else if up then txt "master"
        else txt "master,fail?") ++
      txt " - 0 0 0 " ++ (if up then txt "connected" else txt "disconnected") ++ txt " " ++
      showNat n.firstSlot ++ txt "-" ++ showNat n.lastSlot ++ txt "\n"

def clusterShardsReply (offset : UInt64) : Frame :=
  .array (cluster.elim [] fun c => c.nodes.map fun n =>
    let (host, port) := splitAddr n.addr
    .array [.bulk (txt "slots"), .array [.integer n.firstSlot, .integer n.lastSlot],
      .bulk (txt "nodes"), .array [.array [
        .bulk (txt "id"), .bulk n.id,
        .bulk (txt "port"), .integer port,
        .bulk (txt "ip"), .bulk host,
        .bulk (txt "endpoint"), .bulk host,
        .bulk (txt "role"), .bulk (txt "master"),
        .bulk (txt "replication-offset"),
        .integer (if n.id = c.me.id then wrapI64 offset.toNat else 0),
        .bulk (txt "health"),
        .bulk (if nodeIsReachable health c.me.id n then txt "online" else txt "failed")]]])

def clusterSlotsReply : Frame :=
  .array (cluster.elim [] fun c => c.nodes.map fun n =>
    let (host, port) := splitAddr n.addr
    .array [.integer n.firstSlot, .integer n.lastSlot,
      .array [.bulk host, .integer port, .bulk n.id]])

def handleCluster (offset : UInt64) : Frame → Option Frame
  | .array (.bulk raw :: args) =>
    if asciiUpper raw ≠ txt "CLUSTER" then none
    else some (match args with
      | .bulk sub :: args =>
        let sub := upperWord sub
        if sub = txt "KEYSLOT" then
          match args with
          | [.bulk key] => .integer (keySlot key).val
          | _ => .error (txt "ERR wrong number of arguments for 'cluster|keyslot' command")
        else if sub = txt "MYID" then
          .bulk (cluster.elim (List.replicate 40 48) fun c => c.me.id)
        else if sub = txt "INFO" then .bulk (clusterInfoText cluster health)
        else if sub = txt "SHARDS" then clusterShardsReply cluster health offset
        else if sub = txt "SLOTS" then clusterSlotsReply cluster
        else if sub = txt "NODES" then .bulk (clusterNodesText cluster health)
        else .error (txt "ERR unknown CLUSTER subcommand '" ++ sub ++ txt "'")
      | _ => .error (txt "ERR wrong number of arguments for 'cluster' command"))
  | _ => none

end RocketMem
