import NodeScript.Proofs.Compile.Unit

/-!
Where things stand in the code of a unit. Every placed node has its block at its address, and what
follows an output, or the address that a failed test jumps to, leads to the node linked there.
Nothing stands between blocks but jumps to placed nodes and ends.
-/
namespace NodeScript

theorem Entries.get_set (entries : Entries) (trigger other : Trigger) (address : Addr) :
    (entries.set trigger address).get other =
      if trigger = other then some address else entries.get other := by
  cases trigger <;> cases other <;> rfl

/-- The instructions stand in the code from an address on. -/
def Placed (code : List Instruction) (base : Nat) (chunk : List Instruction) : Prop :=
  ∃ before later, code = before ++ (chunk ++ later) ∧ before.length = base

namespace Placed

variable {code chunk first second : List Instruction} {base : Nat}

theorem whole (code : List Instruction) : Placed code 0 code := ⟨[], [], by simp, rfl⟩

theorem left (placed : Placed code base (first ++ second)) : Placed code base first := by
  obtain ⟨before, later, rfl, length⟩ := placed
  exact ⟨before, second ++ later, by simp, length⟩

theorem right (placed : Placed code base (first ++ second)) :
    Placed code (base + first.length) second := by
  obtain ⟨before, later, rfl, length⟩ := placed
  exact ⟨before ++ first, later, by simp, by simp [length]⟩

theorem getElem? (placed : Placed code base chunk) {index : Nat} (inside : index < chunk.length) :
    code[base + index]? = chunk[index]? := by
  obtain ⟨before, later, rfl, rfl⟩ := placed
  rw [List.getElem?_append_right (Nat.le_add_right _ _), Nat.add_sub_cancel_left,
    List.getElem?_append_left inside]

theorem head {instruction : Instruction} {rest : List Instruction}
    (placed : Placed code base (instruction :: rest)) : code[base]? = some instruction :=
  placed.getElem? (Nat.zero_lt_succ _)

theorem tail {instruction : Instruction} {rest : List Instruction}
    (placed : Placed code base (instruction :: rest)) : Placed code (base + 1) rest :=
  Placed.right (show Placed code base ([instruction] ++ rest) from placed)

theorem length_le (placed : Placed code base chunk) : base + chunk.length ≤ code.length := by
  obtain ⟨before, later, rfl, rfl⟩ := placed
  simp only [List.length_append]
  omega

theorem behind_node {g : Graph} {vars : List Variable} {exit : Addr} {node : Node}
    (placed : Placed code base (node.code g vars exit ++ second)) :
    Placed code (base + node.size g) second := by
  have behind := placed.right
  rwa [Node.length_code] at behind

theorem behind_chain {g : Graph} {vars : List Variable} {address : Uuid → Nat} {start : Nat}
    {chain : Chain} (placed : Placed code base (chain.code g vars address start ++ second)) :
    Placed code (base + chain.size g) second := by
  have behind := placed.right
  rwa [Chain.length_code] at behind

end Placed

/-- Control at an address goes on at the target, or ends where there is none. Targets are placed
nodes; they stand at the address itself or are jumped to. -/
inductive Leads (code : List Instruction) (address : Uuid → Nat) (placed : List Uuid) :
    Nat → Option Uuid → Prop
  | stop {pc : Nat} (found : code[pc]? = some .finish) : Leads code address placed pc none
  | here {uuid : Uuid} (member : uuid ∈ placed) :
      Leads code address placed (address uuid) (some uuid)
  | jump {pc : Nat} {uuid : Uuid} (member : uuid ∈ placed)
      (found : code[pc]? = some (.jump (address uuid).toUInt32)) :
      Leads code address placed pc (some uuid)

/-- The block of a node in the code of a unit, with what its outputs lead to. A test jumps to
`exit` where it fails. -/
structure BlockAt (g : Graph) (vars : List Variable) (code : List Instruction)
    (address : Uuid → Nat) (placed : List Uuid) (exit : Nat) (node : Node) : Prop where
  block : Placed code (address node.uuid) (node.code g vars exit.toUInt32)
  follows : Leads code address placed (address node.uuid + node.size g)
    (g.successor? node.uuid 0)
  fails : node.type.branches = true →
    exit < code.length ∧ Leads code address placed exit (g.successor? node.uuid 1)

/-- An address that belongs to the block of a node. -/
def Inside (g : Graph) (address : Uuid → Nat) (node : Node) (pc : Nat) : Prop :=
  address node.uuid ≤ pc ∧ pc < address node.uuid + node.size g

/-- What stands at an address outside all blocks. -/
def Links (code : List Instruction) (address : Uuid → Nat) (placed : List Uuid) (pc : Nat) : Prop :=
  code[pc]? = some .finish ∨ ∃ uuid ∈ placed, code[pc]? = some (.jump (address uuid).toUInt32)

namespace Chain

variable {g : Graph} {vars : List Variable} {address : Uuid → Nat} {code : List Instruction}
  {placed after all : List Uuid} {target : Option Uuid} {chain : Chain}

/-- The code of a chain leads to its target, and holds the blocks of the nodes it places. -/
theorem Lays.blocks (laid : Lays g placed target chain after) {base : Nat}
    (stands : Placed code base (chain.code g vars address base))
    (agree : ∀ place ∈ chain.places g base, address place.1 = place.2) (within : after ⊆ all) :
    Leads code address all base target ∧
      ∀ node ∈ chain.nodes, ∃ exit, BlockAt g vars code address all exit node := by
  induction laid generalizing base with
  | stop placed => exact ⟨.stop stands.head, by simp [nodes]⟩
  | jump seen => exact ⟨.jump (within seen) stands.head, by simp [nodes]⟩
  | @step placed after uuid node rest fresh found entered single next ih =>
    obtain ⟨-, rfl⟩ := Graph.node?_eq_some found
    simp only [places, List.forall_mem_cons] at agree
    obtain ⟨here, agree⟩ := agree
    have block := stands.left
    have behind := stands.behind_node
    obtain ⟨follows, blocks⟩ := ih behind agree within
    have member : node.uuid ∈ all := within (next.subset (List.mem_cons_self ..))
    refine ⟨here ▸ .here member, fun other inside => ?_⟩
    rcases List.mem_cons.mp inside with rfl | inside
    · exact ⟨0, here ▸ block, here ▸ follows, by simp [single]⟩
    · exact blocks other inside
  | @branch placed middle after uuid node first second fresh found entered double holds fails
      firstBlocks secondBlocks =>
    obtain ⟨-, rfl⟩ := Graph.node?_eq_some found
    simp only [places, List.forall_mem_cons, List.forall_mem_append] at agree
    obtain ⟨here, agreeFirst, agreeSecond⟩ := agree
    have block := stands.left
    have arms := stands.behind_node
    have failing := arms.behind_chain
    obtain ⟨follows, held⟩ := firstBlocks arms.left agreeFirst
      (List.Subset.trans fails.subset within)
    obtain ⟨exits, failed⟩ := secondBlocks failing agreeSecond within
    have member : node.uuid ∈ all :=
      within (fails.subset (holds.subset (List.mem_cons_self ..)))
    refine ⟨here ▸ .here member, fun other inside => ?_⟩
    rcases List.mem_cons.mp inside with rfl | inside
    · have room := failing.length_le
      have nonempty := second.size_pos g
      rw [length_code] at room
      exact ⟨_, here ▸ block, here ▸ follows, fun _ => ⟨by omega, exits⟩⟩
    · rcases List.mem_append.mp inside with inside | inside
      · exact held other inside
      · exact failed other inside

/-- Every instruction of a chain belongs to a block, or links. -/
theorem Lays.covers (laid : Lays g placed target chain after) {base : Nat}
    (stands : Placed code base (chain.code g vars address base))
    (agree : ∀ place ∈ chain.places g base, address place.1 = place.2) (within : after ⊆ all)
    {pc : Nat} (lower : base ≤ pc) (upper : pc < base + chain.size g) :
    (∃ node ∈ chain.nodes, Inside g address node pc) ∨ Links code address all pc := by
  induction laid generalizing base with
  | stop placed =>
    obtain rfl : pc = base := by simp only [size] at upper; omega
    exact .inr (.inl stands.head)
  | @jump placed uuid seen =>
    obtain rfl : pc = base := by simp only [size] at upper; omega
    exact .inr (.inr ⟨uuid, within seen, stands.head⟩)
  | @step placed after uuid node rest fresh found entered single next ih =>
    obtain ⟨-, rfl⟩ := Graph.node?_eq_some found
    simp only [places, List.forall_mem_cons] at agree
    have behind := stands.behind_node
    simp only [size] at upper
    by_cases own : pc < base + node.size g
    · exact .inl ⟨node, by simp [nodes], by rw [Inside, agree.1]; exact ⟨lower, own⟩⟩
    · rcases ih behind agree.2 within (by omega) (by omega) with ⟨other, member, inside⟩ | links
      · exact .inl ⟨other, by simp [nodes, member], inside⟩
      · exact .inr links
  | @branch placed middle after uuid node first second fresh found entered double holds fails
      firstCovers secondCovers =>
    obtain ⟨-, rfl⟩ := Graph.node?_eq_some found
    simp only [places, List.forall_mem_cons, List.forall_mem_append] at agree
    have arms := stands.behind_node
    have failing := arms.behind_chain
    simp only [size] at upper
    by_cases own : pc < base + node.size g
    · exact .inl ⟨node, by simp [nodes], by rw [Inside, agree.1]; exact ⟨lower, own⟩⟩
    · by_cases early : pc < base + node.size g + first.size g
      · rcases firstCovers arms.left agree.2.1 (List.Subset.trans fails.subset within) (by omega)
          early with ⟨other, member, inside⟩ | links
        · exact .inl ⟨other, by simp [nodes, member], inside⟩
        · exact .inr links
      · rcases secondCovers failing agree.2.2 within (by omega) (by omega) with
          ⟨other, member, inside⟩ | links
        · exact .inl ⟨other, by simp [nodes, member], inside⟩
        · exact .inr links

/-- The blocks of a chain follow each other. -/
theorem Lays.ordered (laid : Lays g placed target chain after) {base : Nat}
    (agree : ∀ place ∈ chain.places g base, address place.1 = place.2) :
    chain.nodes.Pairwise (fun m n => address m.uuid + m.size g ≤ address n.uuid) ∧
      ∀ node ∈ chain.nodes,
        base ≤ address node.uuid ∧ address node.uuid + node.size g ≤ base + chain.size g := by
  induction laid generalizing base with
  | stop | jump => simp [nodes]
  | @step placed after uuid node rest fresh found entered single next ih =>
    obtain ⟨-, rfl⟩ := Graph.node?_eq_some found
    simp only [places, List.forall_mem_cons] at agree
    obtain ⟨ordered, bounds⟩ := ih agree.2
    simp only [nodes, List.pairwise_cons, List.forall_mem_cons, size]
    refine ⟨⟨fun other member => ?_, ordered⟩, by omega, fun other member => ?_⟩ <;>
      have := bounds other member <;> omega
  | @branch placed middle after uuid node first second fresh found entered double holds fails
      firstOrdered secondOrdered =>
    obtain ⟨-, rfl⟩ := Graph.node?_eq_some found
    simp only [places, List.forall_mem_cons, List.forall_mem_append] at agree
    obtain ⟨held, heldBounds⟩ := firstOrdered agree.2.1
    obtain ⟨failed, failedBounds⟩ := secondOrdered agree.2.2
    simp only [nodes, List.pairwise_cons, List.pairwise_append, List.forall_mem_cons,
      List.forall_mem_append, size]
    refine ⟨⟨⟨fun other member => ?_, fun other member => ?_⟩, held, failed,
      fun one member other member' => ?_⟩, by omega, fun other member => ?_,
      fun other member => ?_⟩
    · have := heldBounds other member
      omega
    · have := failedBounds other member
      omega
    · have := heldBounds one member
      have := failedBounds other member'
      omega
    · have := heldBounds other member
      omega
    · have := failedBounds other member
      omega

theorem demands_subset {node : Node} (member : node ∈ chain.nodes) :
    node.demands g ⊆ chain.demands g := by
  induction chain with
  | stop | jump => simp [nodes] at member
  | step own rest ih =>
    rcases List.mem_cons.mp member with rfl | member
    · exact List.subset_append_left _ _
    · exact List.subset_append_of_subset_right _ (ih member)
  | branch own first second firstSubset secondSubset =>
    rcases List.mem_cons.mp member with rfl | member
    · exact List.subset_append_left _ _
    · refine List.subset_append_of_subset_right _ ?_
      rcases List.mem_append.mp member with member | member
      · exact List.subset_append_of_subset_left _ (firstSubset member)
      · exact List.subset_append_of_subset_right _ (secondSubset member)

theorem length_constants_le_frame {node : Node} (member : node ∈ chain.nodes) :
    (node.constants g).length ≤ chain.frame g := by
  induction chain with
  | stop | jump => simp [nodes] at member
  | step own rest ih =>
    simp only [frame]
    rcases List.mem_cons.mp member with rfl | member
    · exact Nat.le_max_left _ _
    · exact Nat.le_trans (ih member) (Nat.le_max_right _ _)
  | branch own first second firstLe secondLe =>
    simp only [frame]
    rcases List.mem_cons.mp member with rfl | member
    · exact Nat.le_max_left _ _
    · rcases List.mem_append.mp member with member | member
      · have := firstLe member
        omega
      · have := secondLe member
        omega

end Chain

namespace Layout

variable {g : Graph} {vars : List Variable} {address : Uuid → Nat} {code : List Instruction}
  {triggers : List Trigger} {placed after all : List Uuid} {layout : Layout}

/-- The nodes of a unit, in the order of their placement. -/
def nodes (layout : Layout) : List Node := layout.flatMap fun entry => entry.2.nodes

/-- The instructions of a unit. -/
def instructions (g : Graph) (layout : Layout) : List Instruction :=
  layout.code g (layout.vars g) (layout.address g) 0

theorem length_code (layout : Layout) (base : Nat) :
    (layout.code g vars address base).length = layout.size g := by
  induction layout generalizing base with
  | nil => rfl
  | cons entry rest ih => simp [code, size, ih]

theorem blocks (laid : Chain.LaysAll g triggers placed layout after) {base : Nat}
    (stands : Placed code base (layout.code g vars address base))
    (agree : ∀ place ∈ layout.places g base, address place.1 = place.2) (within : after ⊆ all) :
    ∀ node ∈ layout.nodes, ∃ exit, BlockAt g vars code address all exit node := by
  induction laid generalizing base with
  | done placed => simp [nodes]
  | skip unlinked others ih => exact ih stands agree within
  | @lead placed middle after trigger rest target chain layout linked laid others ih =>
    simp only [places, List.forall_mem_append] at agree
    have behind := stands.behind_chain
    obtain ⟨-, held⟩ := laid.blocks stands.left agree.1
      (List.Subset.trans others.subset within)
    intro node member
    simp only [nodes, List.flatMap_cons, List.mem_append] at member
    rcases member with member | member
    · exact held node member
    · exact ih behind agree.2 within node member

theorem covers (laid : Chain.LaysAll g triggers placed layout after) {base : Nat}
    (stands : Placed code base (layout.code g vars address base))
    (agree : ∀ place ∈ layout.places g base, address place.1 = place.2) (within : after ⊆ all)
    {pc : Nat} (lower : base ≤ pc) (upper : pc < base + layout.size g) :
    (∃ node ∈ layout.nodes, Inside g address node pc) ∨ Links code address all pc := by
  induction laid generalizing base with
  | done placed =>
    rw [size] at upper
    omega
  | skip unlinked others ih => exact ih stands agree within lower upper
  | @lead placed middle after trigger rest target chain layout linked laid others ih =>
    simp only [places, List.forall_mem_append] at agree
    rw [size] at upper
    have behind := stands.behind_chain
    by_cases early : pc < base + chain.size g
    · rcases laid.covers stands.left agree.1 (List.Subset.trans others.subset within) lower early
        with ⟨node, member, inside⟩ | links
      · exact .inl ⟨node, List.mem_append_left _ member, inside⟩
      · exact .inr links
    · rcases ih behind agree.2 within (by omega) (by omega) with
        ⟨node, member, inside⟩ | links
      · exact .inl ⟨node, List.mem_append_right _ member, inside⟩
      · exact .inr links

theorem ordered (laid : Chain.LaysAll g triggers placed layout after) {base : Nat}
    (agree : ∀ place ∈ layout.places g base, address place.1 = place.2) :
    layout.nodes.Pairwise (fun m n => address m.uuid + m.size g ≤ address n.uuid) ∧
      ∀ node ∈ layout.nodes,
        base ≤ address node.uuid ∧ address node.uuid + node.size g ≤ base + layout.size g := by
  induction laid generalizing base with
  | done placed => simp [nodes]
  | skip unlinked others ih => exact ih agree
  | @lead placed middle after trigger rest target chain layout linked laid others ih =>
    simp only [places, List.forall_mem_append] at agree
    obtain ⟨held, heldBounds⟩ := laid.ordered agree.1
    obtain ⟨later, laterBounds⟩ := ih agree.2
    simp only [nodes, List.flatMap_cons, List.pairwise_append, List.forall_mem_append, size]
      at later laterBounds ⊢
    refine ⟨⟨held, later, fun one member other member' => ?_⟩, fun other member => ?_,
      fun other member => ?_⟩
    · have := heldBounds one member
      have := laterBounds other member'
      omega
    · have := heldBounds other member
      omega
    · have := laterBounds other member
      omega

theorem entries_unlinked (laid : Chain.LaysAll g triggers placed layout after) (base : Nat)
    (found : Entries) {trigger : Trigger}
    (unlinked : trigger ∈ triggers → g.successor? g.start.uuid trigger.pin = none) :
    (layout.entries g base found).get trigger = found.get trigger := by
  induction laid generalizing base found with
  | done placed => rfl
  | skip _ others ih => exact ih base found fun member => unlinked (List.mem_cons_of_mem _ member)
  | @lead placed middle after other rest target chain layout linked laid others ih =>
    have different : other ≠ trigger := by
      rintro rfl
      have none := unlinked (List.mem_cons_self ..)
      rw [linked] at none
      cases none
    rw [entries, ih _ _ fun member => unlinked (List.mem_cons_of_mem _ member), Entries.get_set,
      if_neg different]

/-- An entry exists exactly where its output is linked, and leads to the node linked there. -/
theorem entries_linked (laid : Chain.LaysAll g triggers placed layout after) {base : Nat}
    (stands : Placed code base (layout.code g vars address base))
    (agree : ∀ place ∈ layout.places g base, address place.1 = place.2) (within : after ⊆ all)
    (distinct : triggers.Nodup) (found : Entries) {trigger : Trigger} {target : Uuid}
    (member : trigger ∈ triggers)
    (linked : g.successor? g.start.uuid trigger.pin = some target) :
    ∃ entry < code.length, (layout.entries g base found).get trigger = some entry.toUInt32 ∧
      Leads code address all entry (some target) := by
  induction laid generalizing base found with
  | done placed => simp at member
  | skip unlinked others ih =>
    rcases List.mem_cons.mp member with rfl | member
    · rw [linked] at unlinked
      cases unlinked
    · exact ih stands agree within (List.nodup_cons.mp distinct).2 found member
  | @lead placed middle after other rest target' chain layout linked' laid others ih =>
    simp only [places, List.forall_mem_append] at agree
    obtain ⟨new, distinct⟩ := List.nodup_cons.mp distinct
    have behind := stands.behind_chain
    rcases List.mem_cons.mp member with rfl | member
    · obtain rfl : target' = target := Option.some.inj (linked'.symm.trans linked)
      have room := stands.left.length_le
      have nonempty := chain.size_pos g
      rw [Chain.length_code] at room
      obtain ⟨leads, -⟩ := laid.blocks stands.left agree.1
        (List.Subset.trans others.subset within)
      refine ⟨base, by omega, ?_, leads⟩
      rw [entries, entries_unlinked others _ _ fun member => absurd member new, Entries.get_set,
        if_pos rfl]
    · exact ih behind agree.2 within distinct _ member

theorem getElem?_code (g : Graph) (layout : Layout) (pc : Nat) :
    (layout.program g).code[pc]? = (layout.instructions g)[pc]? := List.getElem?_toArray

/-- The block of a placed node in the closed form, whether or not there are addresses for all of
it. -/
theorem block_of_mem (laid : Chain.LaysAll g Trigger.all [] layout after) (within : after ⊆ all)
    {node : Node} (member : node ∈ layout.nodes) :
    ∃ exit, BlockAt g (layout.vars g) (layout.instructions g) (layout.address g) all exit node :=
  blocks laid (Placed.whole _) (address_place laid) within node member

namespace Closed

theorem agree (closed : layout.Closed g after) :
    ∀ place ∈ layout.places g 0, layout.address g place.1 = place.2 := address_place closed.laid

theorem block (closed : layout.Closed g after) {node : Node} (member : node ∈ layout.nodes) :
    ∃ exit, BlockAt g (layout.vars g) (layout.instructions g) (layout.address g) after exit node :=
  block_of_mem closed.laid (List.Subset.refl _) member

theorem length_instructions (closed : layout.Closed g after) :
    (layout.instructions g).length < UInt32.size := by
  rw [instructions, length_code]
  exact closed.room

theorem toNat_toUInt32 (closed : layout.Closed g after) {pc : Nat}
    (inside : pc ≤ (layout.instructions g).length) : pc.toUInt32.toNat = pc := by
  exact UInt32.toNat_ofNat_of_lt' (Nat.lt_of_le_of_lt inside closed.length_instructions)

/-- The instruction that the machine finds at an address. -/
theorem fetch (closed : layout.Closed g after) {pc : Nat} {instruction : Instruction}
    (found : (layout.instructions g)[pc]? = some instruction) :
    (layout.program g).code[pc.toUInt32.toNat]? = some instruction := by
  have inside := (List.getElem?_eq_some_iff.mp found).1
  rw [closed.toNat_toUInt32 (Nat.le_of_lt inside), getElem?_code, found]

theorem node_mem (closed : layout.Closed g after) {node : Node} (member : node ∈ layout.nodes) :
    g.node? node.uuid = some node ∧ node.type.inputs ≠ [] :=
  closed.laid.node_mem node member

/-- Placed identifiers are those of placed nodes. -/
theorem node_of_mem (closed : layout.Closed g after) {uuid : Uuid} (member : uuid ∈ after) :
    ∃ node ∈ layout.nodes, node.uuid = uuid := by
  rw [closed.laid.after_eq, List.append_nil, List.mem_reverse, List.mem_map] at member
  exact member

theorem entry_unlinked (closed : layout.Closed g after) {trigger : Trigger}
    (unlinked : g.successor? g.start.uuid trigger.pin = none) :
    (layout.program g).entries.get trigger = none := by
  rw [program, entries_unlinked closed.laid 0 .empty fun _ => unlinked]
  cases trigger <;> rfl

theorem entry_linked (closed : layout.Closed g after) {trigger : Trigger} {target : Uuid}
    (linked : g.successor? g.start.uuid trigger.pin = some target) :
    ∃ entry < (layout.instructions g).length,
      (layout.program g).entries.get trigger = some entry.toUInt32 ∧
        Leads (layout.instructions g) (layout.address g) after entry (some target) :=
  entries_linked closed.laid (Placed.whole _) closed.agree (List.Subset.refl _) (by decide) .empty
    (by cases trigger <;> decide) linked

end Closed

theorem demands_subset {node : Node} (member : node ∈ layout.nodes) :
    node.demands g ⊆ layout.vars g := by
  obtain ⟨entry, inside, member⟩ := List.mem_flatMap.mp member
  intro v asked
  exact Variable.mem_declareAll
    (List.mem_flatMap.mpr ⟨entry, inside, Chain.demands_subset member asked⟩)

theorem length_constants_le_frame {node : Node} (member : node ∈ layout.nodes) :
    (node.constants g).length ≤ layout.frame g := by
  induction layout with
  | nil => simp [nodes] at member
  | cons entry rest ih =>
    simp only [nodes, List.flatMap_cons, List.mem_append] at member
    simp only [frame]
    rcases member with member | member
    · exact Nat.le_trans (Chain.length_constants_le_frame member) (Nat.le_max_left _ _)
    · exact Nat.le_trans (ih member) (Nat.le_max_right _ _)

end Layout

end NodeScript
