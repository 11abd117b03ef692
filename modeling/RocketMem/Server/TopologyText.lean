import RocketMem.Server.Cluster

namespace RocketMem

open List

structure TopologyRow where
  id : Bytes
  addr : Bytes
  firstSlot : Nat
  lastSlot : Nat

namespace TopologyRow

def covers (row : TopologyRow) (slot : Nat) : Bool :=
  decide (row.firstSlot ≤ slot ∧ slot ≤ row.lastSlot)

def WrittenAs (row : TopologyRow) (line : Bytes) : Prop :=
  ∃ first last, splitWhitespace line = [row.id, row.addr, first, last] ∧
    parseU32 first = some row.firstSlot ∧ parseU32 last = some row.lastSlot ∧
    row.firstSlot ≤ row.lastSlot ∧ row.lastSlot < slotCount

end TopologyRow

def contentLines (ls : List Bytes) : List Bytes :=
  (ls.map trim).filter fun line => ¬ (line.isEmpty ∨ line.head? = some 35)

/-- A text that gives every slot to one node. -/
structure ValidTopology (text : Bytes) (rows : List TopologyRow) : Prop where
  written : Forall₂ TopologyRow.WrittenAs rows (contentLines (lines text))
  ids : (rows.map TopologyRow.id).Nodup
  addrs : (rows.map TopologyRow.addr).Nodup
  once : ∀ slot < slotCount, rows.countP (·.covers slot) = 1

def ClusterNode.row (n : ClusterNode) : TopologyRow := ⟨n.id, n.addr, n.firstSlot, n.lastSlot⟩

section

variable {lineno : Nat} {nodes nodes' : List ClusterNode} {line : Bytes} {n : ClusterNode}

theorem parseSlot_ok_iff {raw : Bytes} {slot : Nat} :
    parseSlot lineno raw = .ok slot ↔ parseU32 raw = some slot ∧ slot < slotCount := by
  unfold parseSlot
  cases parseU32 raw with
  | none => simp
  | some k =>
    by_cases hk : slotCount ≤ k
    · simp only [if_pos hk, reduceCtorEq, Option.some.injEq, false_iff, not_and, not_lt]
      rintro rfl
      exact hk
    · simp only [if_neg hk, Except.ok.injEq, Option.some.injEq]
      constructor
      · rintro rfl
        exact ⟨rfl, by omega⟩
      · exact And.left

theorem any_id_iff {id : Bytes} :
    (nodes.any fun m => m.id = id) = true ↔ id ∈ nodes.map ClusterNode.id := by
  simp

theorem any_addr_iff {addr : Bytes} :
    (nodes.any fun m => m.addr = addr) = true ↔ addr ∈ nodes.map ClusterNode.addr := by
  simp

theorem written_of_parseNode (h : parseNode lineno nodes line = .ok n) :
    n.row.WrittenAs line ∧ n.id ∉ nodes.map ClusterNode.id ∧
      n.addr ∉ nodes.map ClusterNode.addr := by
  unfold parseNode at h
  split at h
  · next id addr first last hfields =>
    cases hfirst : parseSlot lineno first with
    | error e =>
      rw [hfirst] at h
      cases h
    | ok firstSlot =>
      cases hlast : parseSlot lineno last with
      | error e =>
        rw [hfirst, hlast] at h
        cases h
      | ok lastSlot =>
        rw [hfirst, hlast] at h
        simp only [bind, Except.bind] at h
        split_ifs at h with hle hid haddr
        cases h
        obtain ⟨hfirst, -⟩ := parseSlot_ok_iff.mp hfirst
        obtain ⟨hlast, hrange⟩ := parseSlot_ok_iff.mp hlast
        exact ⟨⟨first, last, hfields, hfirst, hlast, hle, hrange⟩,
          fun hmem => hid (any_id_iff.mpr hmem), fun hmem => haddr (any_addr_iff.mpr hmem)⟩
  · cases h

theorem parseNode_of_written (hwritten : n.row.WrittenAs line)
    (hid : n.id ∉ nodes.map ClusterNode.id) (haddr : n.addr ∉ nodes.map ClusterNode.addr) :
    parseNode lineno nodes line = .ok n := by
  obtain ⟨first, last, hfields, hfirst, hlast, hle, hrange⟩ := hwritten
  have hfirstSlot : parseSlot lineno first = .ok n.firstSlot :=
    parseSlot_ok_iff.mpr ⟨hfirst, Nat.lt_of_le_of_lt hle hrange⟩
  have hlastSlot : parseSlot lineno last = .ok n.lastSlot := parseSlot_ok_iff.mpr ⟨hlast, hrange⟩
  have hordered : n.firstSlot ≤ n.lastSlot := hle
  have hnewId : ¬ (nodes.any fun m => m.id = n.row.id) = true := mt any_id_iff.mp hid
  have hnewAddr : ¬ (nodes.any fun m => m.addr = n.row.addr) = true := mt any_addr_iff.mp haddr
  unfold parseNode
  split
  · next id addr first' last' hfields' =>
    rw [hfields] at hfields'
    cases hfields'
    simp only [hfirstSlot, hlastSlot, bind, Except.bind]
    rw [dif_pos hordered, if_neg hnewId, if_neg hnewAddr]
    rfl
  · next hnot => exact absurd hfields (hnot _ _ _ _)

theorem TopologyRow.WrittenAs.exists_node {row : TopologyRow} (h : row.WrittenAs line) :
    ∃ n : ClusterNode, n.row = row := by
  obtain ⟨first, last, hfields, -, -, hle, -⟩ := h
  have haddr : row.addr ∈ splitWhitespace line := by
    rw [hfields]
    exact .tail row.id mem_cons_self
  exact ⟨⟨row.id, row.addr, row.firstSlot, row.lastSlot, hle, not_cr_of_mem_splitWhitespace haddr⟩,
    rfl⟩

theorem contentLines_cons (raw : Bytes) (rest : List Bytes) :
    contentLines (raw :: rest) =
      if (trim raw).isEmpty ∨ (trim raw).head? = some 35 then contentLines rest
      else trim raw :: contentLines rest := by
  unfold contentLines
  by_cases hskip : (trim raw).isEmpty ∨ (trim raw).head? = some 35
  · rw [if_pos hskip, map_cons, filter_cons_of_neg (by simpa [or_iff_not_imp_left] using hskip)]
  · rw [if_neg hskip, map_cons, filter_cons_of_pos (by simpa using hskip)]

def Apart (nodes : List ClusterNode) : Prop :=
  (nodes.map ClusterNode.id).Nodup ∧ (nodes.map ClusterNode.addr).Nodup

theorem apart_concat :
    Apart (nodes ++ [n]) ↔ Apart nodes ∧ n.id ∉ nodes.map ClusterNode.id ∧
      n.addr ∉ nodes.map ClusterNode.addr := by
  have hadd (l : List Bytes) (b : Bytes) : (l ++ [b]).Nodup ↔ b ∉ l ∧ l.Nodup := by
    rw [← concat_eq_append, nodup_concat]
  simp only [Apart, map_append, map_singleton, hadd]
  tauto

theorem Apart.of_append {more : List ClusterNode} (h : Apart (nodes ++ more)) : Apart nodes := by
  rw [Apart, map_append, map_append] at h
  exact ⟨h.1.of_append_left, h.2.of_append_left⟩

theorem parseLines_ok {ls : List Bytes} (happart : Apart nodes)
    (h : parseLines lineno nodes ls = .ok nodes') :
    ∃ more, nodes' = nodes ++ more ∧ Apart nodes' ∧
      Forall₂ (fun n line => n.row.WrittenAs line) more (contentLines ls) := by
  induction ls generalizing lineno nodes with
  | nil =>
    cases h
    exact ⟨[], by simp, happart, .nil⟩
  | cons raw rest ih =>
    unfold parseLines at h
    dsimp only at h
    rw [contentLines_cons]
    split_ifs at h ⊢ with hskip
    · exact ih happart h
    · cases hnode : parseNode lineno nodes (trim raw) with
      | error e =>
        rw [hnode] at h
        cases h
      | ok n =>
        rw [hnode] at h
        obtain ⟨hwritten, hid, haddr⟩ := written_of_parseNode hnode
        obtain ⟨more, rfl, happart', hmore⟩ := ih (apart_concat.mpr ⟨happart, hid, haddr⟩) h
        exact ⟨n :: more, by simp, happart', .cons hwritten hmore⟩

theorem parseLines_of_written {ls : List Bytes} {more : List ClusterNode}
    (happart : Apart (nodes ++ more))
    (hmore : Forall₂ (fun n line => n.row.WrittenAs line) more (contentLines ls)) :
    parseLines lineno nodes ls = .ok (nodes ++ more) := by
  induction ls generalizing lineno nodes more with
  | nil =>
    cases hmore
    simp [parseLines]
  | cons raw rest ih =>
    unfold parseLines
    dsimp only
    rw [contentLines_cons] at hmore
    split_ifs at hmore ⊢ with hskip
    · exact ih happart hmore
    · cases hmore with
      | @cons n line more _ hwritten hmore =>
        rw [append_cons] at happart ⊢
        obtain ⟨-, hid, haddr⟩ := apart_concat.mp happart.of_append
        rw [parseNode_of_written hwritten hid haddr]
        exact ih happart hmore

end

section

variable {start : Nat} {nodes : List ClusterNode} {n : ClusterNode} {slot : Nat}

def coverage (nodes : List ClusterNode) (slot : Nat) : Nat :=
  nodes.countP fun n => n.row.covers slot

theorem row_covers_iff : n.row.covers slot = true ↔ n.firstSlot ≤ slot ∧ slot ≤ n.lastSlot :=
  decide_eq_true_iff

theorem coverage_eq_zero (h : ∀ n ∈ nodes, slot < n.firstSlot) : coverage nodes slot = 0 := by
  rw [coverage, countP_eq_zero]
  intro n hn hcovers
  have hfirst := h n hn
  have hrange := row_covers_iff.mp hcovers
  omega

theorem coverage_cons_of_covers (h : n.firstSlot ≤ slot ∧ slot ≤ n.lastSlot) :
    coverage (n :: nodes) slot = coverage nodes slot + 1 := by
  exact countP_cons_of_pos (p := fun n : ClusterNode => n.row.covers slot) (row_covers_iff.mpr h)

theorem coverage_cons_of_not (h : ¬ (n.firstSlot ≤ slot ∧ slot ≤ n.lastSlot)) :
    coverage (n :: nodes) slot = coverage nodes slot := by
  exact countP_cons_of_neg (p := fun n : ClusterNode => n.row.covers slot) (mt row_covers_iff.mp h)

theorem Contiguous.coverage_eq_one (h : Contiguous start nodes) (hstart : start ≤ slot)
    (hslot : slot < slotCount) : coverage nodes slot = 1 := by
  induction nodes generalizing start with
  | nil =>
    have hend : start = slotCount := h
    omega
  | cons n rest ih =>
    obtain ⟨hfirst, hrest⟩ := h
    by_cases hle : slot ≤ n.lastSlot
    · rw [coverage_cons_of_covers ⟨by omega, hle⟩]
      have hlater : ∀ m ∈ rest, slot < m.firstSlot := by
        intro m hm
        have := hrest.start_le hm
        omega
      rw [coverage_eq_zero hlater]
    · rw [coverage_cons_of_not (by omega)]
      exact ih hrest (by omega)

theorem contiguous_of_coverage
    (hsorted : nodes.Pairwise fun a b => a.firstSlot ≤ b.firstSlot)
    (hrange : ∀ n ∈ nodes, start ≤ n.firstSlot ∧ n.lastSlot < slotCount) (hstart : start ≤ slotCount)
    (honce : ∀ slot, start ≤ slot → slot < slotCount → coverage nodes slot = 1) :
    Contiguous start nodes := by
  induction nodes generalizing start with
  | nil =>
    by_contra hne
    have hlt : start < slotCount := by
      have : start ≠ slotCount := hne
      omega
    have hzero := honce start (Nat.le_refl _) hlt
    cases hzero
  | cons n rest ih =>
    obtain ⟨hfirst, hlast⟩ := hrange n mem_cons_self
    have hordered := n.ordered
    obtain ⟨hnext, hsorted⟩ := pairwise_cons.mp hsorted
    -- the first range starts here: otherwise no range holds this slot
    have hstartEq : n.firstSlot = start := by
      by_contra hne
      have hzero : coverage (n :: rest) start = 0 := by
        apply coverage_eq_zero
        intro m hm
        rcases mem_cons.mp hm with rfl | hm
        · omega
        · have := hnext m hm
          omega
      have hone := honce start (Nat.le_refl _) (by omega)
      omega
    -- the others start behind it: otherwise their first slot lies in two ranges
    have hbehind : ∀ m ∈ rest, n.lastSlot + 1 ≤ m.firstSlot := by
      intro m hm
      by_contra hlt
      have hmfirst := hnext m hm
      have hmordered := m.ordered
      have hone := honce m.firstSlot (by omega) (by omega)
      rw [coverage_cons_of_covers ⟨by omega, by omega⟩] at hone
      have hpos : 0 < coverage rest m.firstSlot :=
        countP_pos_iff.mpr ⟨m, hm, row_covers_iff.mpr ⟨Nat.le_refl _, hmordered⟩⟩
      omega
    refine ⟨hstartEq, ih hsorted ?_ (by omega) ?_⟩
    · intro m hm
      exact ⟨hbehind m hm, (hrange m (mem_cons_of_mem _ hm)).2⟩
    · intro slot hslot hlt
      rw [← honce slot (by omega) hlt, coverage_cons_of_not (by omega)]

theorem checkPairs_of_contiguous {rest : List ClusterNode} (h : Contiguous start (n :: rest)) :
    checkPairs (n :: rest) = .ok () ∧
      ((n :: rest).getLast (cons_ne_nil n rest)).lastSlot = slotCount - 1 := by
  induction rest generalizing n start with
  | nil =>
    have hend : n.lastSlot + 1 = slotCount := h.2
    refine ⟨rfl, ?_⟩
    rw [getLast_singleton]
    omega
  | cons next rest ih =>
    obtain ⟨hpairs, hlast⟩ := ih h.2
    have hnext : next.firstSlot = n.lastSlot + 1 := h.2.1
    rw [getLast_cons_cons]
    refine ⟨?_, hlast⟩
    rw [checkPairs, if_neg (by omega), if_neg (by omega), hpairs]

theorem checkSlots_of_contiguous (h : Contiguous 0 nodes) : checkSlots nodes = .ok () := by
  cases nodes with
  | nil => cases h
  | cons first rest =>
    obtain ⟨hpairs, hlast⟩ := checkPairs_of_contiguous h
    have hzero : first.firstSlot = 0 := h.1
    simp only [checkSlots, hzero, hpairs, hlast, bind, Except.bind]
    rfl

end

variable {text nodeId : Bytes} {nodes : List ClusterNode} {t : Topology} {c : ClusterConfig}

def bySlot (nodes : List ClusterNode) : List ClusterNode :=
  nodes.insertionSort fun a b => a.firstSlot ≤ b.firstSlot

theorem bySlot_perm (nodes : List ClusterNode) : (bySlot nodes).Perm nodes :=
  perm_insertionSort _ nodes

theorem bySlot_pairwise (nodes : List ClusterNode) :
    (bySlot nodes).Pairwise fun a b => a.firstSlot ≤ b.firstSlot := by
  have htotal : Std.Total fun a b : ClusterNode => a.firstSlot ≤ b.firstSlot :=
    ⟨fun a b => Nat.le_total a.firstSlot b.firstSlot⟩
  have htrans : IsTrans ClusterNode fun a b => a.firstSlot ≤ b.firstSlot :=
    ⟨fun a b c => Nat.le_trans⟩
  exact pairwise_insertionSort _ nodes

theorem coverage_bySlot (slot : Nat) : coverage (bySlot nodes) slot = coverage nodes slot :=
  (bySlot_perm nodes).countP_eq _

theorem coverage_eq_rows (slot : Nat) :
    coverage nodes slot = (nodes.map ClusterNode.row).countP (·.covers slot) := by
  rw [countP_map]
  rfl

theorem parse_of_lines (hlines : parseLines 1 [] (lines text) = .ok nodes)
    (hslots : checkSlots (bySlot nodes) = .ok ()) :
    ∃ t, Topology.parse text = .ok t ∧ t.nodes = bySlot nodes := by
  unfold Topology.parse
  split
  · next e he =>
    rw [hlines] at he
    cases he
  · next nodes' hnodes =>
    rw [hlines] at hnodes
    cases hnodes
    split
    · next e he =>
      have hok : checkSlots (nodes.insertionSort fun a b => a.firstSlot ≤ b.firstSlot) = .ok () :=
        hslots
      rw [hok] at he
      cases he
    · exact ⟨_, rfl, rfl⟩

theorem lines_of_parse (h : Topology.parse text = .ok t) :
    ∃ nodes, parseLines 1 [] (lines text) = .ok nodes ∧ t.nodes = bySlot nodes := by
  unfold Topology.parse at h
  split at h
  · cases h
  · next nodes hlines =>
    split at h
    · cases h
    · cases h
      exact ⟨nodes, hlines, rfl⟩

theorem forNode_ok (h : t.forNode nodeId = .ok c) : c.toTopology = t ∧ c.me.id = nodeId := by
  unfold Topology.forNode at h
  split at h
  · cases h
  · next i hi =>
    cases h
    refine ⟨rfl, ?_⟩
    obtain ⟨hlt, hid, -⟩ := findIdx?_eq_some_iff_getElem.mp hi
    exact of_decide_eq_true hid

theorem forNode_of_mem (h : nodeId ∈ t.nodes.map ClusterNode.id) :
    ∃ c, t.forNode nodeId = .ok c := by
  unfold Topology.forNode
  split
  · next hnone =>
    obtain ⟨n, hn, hid⟩ := mem_map.mp h
    have hne := findIdx?_eq_none_iff.mp hnone n hn
    exact absurd hid (of_decide_eq_false hne)
  · exact ⟨_, rfl⟩

theorem forall₂_rows {more : List ClusterNode} {ls : List Bytes}
    (h : Forall₂ (fun n line => n.row.WrittenAs line) more ls) :
    Forall₂ TopologyRow.WrittenAs (more.map ClusterNode.row) ls :=
  forall₂_map_left_iff.mpr h

theorem exists_nodes {rows : List TopologyRow} {ls : List Bytes}
    (h : Forall₂ TopologyRow.WrittenAs rows ls) :
    ∃ nodes : List ClusterNode, nodes.map ClusterNode.row = rows := by
  induction h with
  | nil => exact ⟨[], rfl⟩
  | cons hrow _ ih =>
    obtain ⟨n, hn⟩ := hrow.exists_node
    obtain ⟨nodes, hnodes⟩ := ih
    exact ⟨n :: nodes, by rw [map_cons, hn, hnodes]⟩

theorem lastSlot_lt_of_written {ls : List Bytes}
    (h : Forall₂ (fun n line => n.row.WrittenAs line) nodes ls) {n : ClusterNode}
    (hn : n ∈ nodes) : n.lastSlot < slotCount := by
  induction h with
  | nil => cases hn
  | cons hrow _ ih =>
    rcases mem_cons.mp hn with rfl | hn
    · obtain ⟨first, last, -, -, -, -, hlast⟩ := hrow
      exact hlast
    · exact ih hn

theorem valid_of_parse (h : Topology.parse text = .ok t) :
    ∃ rows, ValidTopology text rows ∧ (t.nodes.map ClusterNode.row).Perm rows := by
  obtain ⟨nodes, hlines, hnodes⟩ := lines_of_parse h
  have hnone : Apart [] := ⟨nodup_nil, nodup_nil⟩
  obtain ⟨_, rfl, hapart, hwritten⟩ := parseLines_ok hnone hlines
  have hsame (slot : Nat) : coverage nodes slot = coverage t.nodes slot := by
    rw [hnodes, coverage_bySlot]
  refine ⟨nodes.map ClusterNode.row, ⟨forall₂_rows hwritten, ?_, ?_, ?_⟩, ?_⟩
  · rw [map_map]
    exact hapart.1
  · rw [map_map]
    exact hapart.2
  · intro slot hslot
    rw [← coverage_eq_rows, hsame]
    exact t.whole.coverage_eq_one (Nat.zero_le slot) hslot
  · rw [hnodes]
    exact (bySlot_perm nodes).map _

theorem ValidTopology.parses {rows : List TopologyRow} (h : ValidTopology text rows) :
    ∃ t, Topology.parse text = .ok t ∧ (t.nodes.map ClusterNode.row).Perm rows := by
  obtain ⟨nodes, rfl⟩ := exists_nodes h.written
  have hwritten := forall₂_map_left_iff.mp h.written
  have hapart : Apart ([] ++ nodes) := by
    have hids := h.ids
    have haddrs := h.addrs
    rw [map_map] at hids haddrs
    exact ⟨hids, haddrs⟩
  have hlines : parseLines 1 [] (lines text) = .ok nodes := parseLines_of_written hapart hwritten
  have hcontiguous : Contiguous 0 (bySlot nodes) := by
    apply contiguous_of_coverage (bySlot_pairwise nodes) ?_ (Nat.zero_le _)
    · intro slot _ hslot
      rw [coverage_bySlot, coverage_eq_rows]
      exact h.once slot hslot
    · intro n hn
      have hmem : n ∈ nodes := (bySlot_perm nodes).mem_iff.mp hn
      exact ⟨Nat.zero_le _, lastSlot_lt_of_written hwritten hmem⟩
  obtain ⟨t, ht, hnodes⟩ := parse_of_lines hlines (checkSlots_of_contiguous hcontiguous)
  refine ⟨t, ht, ?_⟩
  rw [hnodes]
  exact (bySlot_perm nodes).map _

/-- `ClusterConfig::parse` accepts the texts that are valid and name the node, and no others; then
every slot has an owner, and the node owns the slots whose owner it is. -/
theorem parse_ok_iff_valid (text nodeId : Bytes) :
    ((∃ c, ClusterConfig.parse text nodeId = .ok c) ↔
      ∃ rows, ValidTopology text rows ∧ nodeId ∈ rows.map TopologyRow.id) ∧
    ∀ c, ClusterConfig.parse text nodeId = .ok c →
      (∃ rows, ValidTopology text rows ∧ (c.nodes.map ClusterNode.row).Perm rows) ∧
      c.me.id = nodeId ∧
      ∀ slot, (c.nodes.find? fun n => n.firstSlot ≤ slot.val ∧ slot.val ≤ n.lastSlot) =
          some (c.ownerOf slot) ∧
        (c.owns slot = true ↔ c.ownerOf slot = c.me) := by
  have hids (t : Topology) {rows : List TopologyRow}
      (hperm : (t.nodes.map ClusterNode.row).Perm rows) :
      nodeId ∈ rows.map TopologyRow.id ↔ nodeId ∈ t.nodes.map ClusterNode.id := by
    rw [← (hperm.map TopologyRow.id).mem_iff, map_map]
    rfl
  have hsplit (c : ClusterConfig) (h : ClusterConfig.parse text nodeId = .ok c) :
      Topology.parse text = .ok c.toTopology ∧ c.me.id = nodeId := by
    unfold ClusterConfig.parse at h
    cases hparse : Topology.parse text with
    | error e =>
      rw [hparse] at h
      cases h
    | ok t =>
      rw [hparse] at h
      obtain ⟨rfl, hme⟩ := forNode_ok h
      exact ⟨rfl, hme⟩
  refine ⟨⟨?_, ?_⟩, ?_⟩
  · rintro ⟨c, h⟩
    obtain ⟨hparse, hme⟩ := hsplit c h
    obtain ⟨rows, hvalid, hperm⟩ := valid_of_parse hparse
    refine ⟨rows, hvalid, (hids c.toTopology hperm).mpr ?_⟩
    rw [← hme]
    exact mem_map_of_mem (get_mem _ _)
  · rintro ⟨rows, hvalid, hid⟩
    obtain ⟨t, hparse, hperm⟩ := hvalid.parses
    obtain ⟨c, hc⟩ := forNode_of_mem ((hids t hperm).mp hid)
    refine ⟨c, ?_⟩
    unfold ClusterConfig.parse
    rw [hparse]
    exact hc
  · intro c h
    obtain ⟨hparse, hme⟩ := hsplit c h
    exact ⟨valid_of_parse hparse, hme, fun slot =>
      ⟨(Option.some_get (c.owner_isSome slot)).symm, c.owns_iff slot⟩⟩

end RocketMem
