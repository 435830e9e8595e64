import NodeScript.Proofs.Compile.Placement
import NodeScript.Proofs.Execution.Safety

/-!
Units are well-formed programs. Every instruction binds a constant of a node, is what a node is for,
or links one chain to another; what it needs of addresses, slots and frames follows from where it
stands. Control enters the block of a node at its head alone, so frames are read as they were bound.
-/
namespace NodeScript

/-- The node in whose block an address lies: the last node that is placed at it or before it. -/
def Assembly.blockOf? (a : Assembly) (pc : Addr) : Option Uuid :=
  (a.labels.find? fun label => label.2 ≤ pc).map Prod.fst

/-- What the instruction that a node is for needs. -/
structure Serves (g : Graph) (vars : List Variable) (exit : Addr) (node : Node)
    (instruction : Instruction) : Prop where
  onward : instruction.goesOn = true
  target : ∀ target, instruction.target? = some target →
    node.type.branches = true ∧ target = exit
  frame : ∀ slot, .frame slot ∈ instruction.operands → slot.toNat < (node.constants g).length
  slots : instruction.frameSlots = instruction.operands.filterMap fun operand =>
    match operand with
    | .frame slot => some slot
    | _ => none
  globals : ∀ slot, .global slot ∈ instruction.operands →
    ∃ source, .result source ∈ node.demands g ∧ slot = Variable.slotOf vars (.result source)
  calls : ∀ function argument result, instruction = .call function argument result →
    ∃ hash source, .function hash ∈ node.demands g ∧ .result source ∈ node.demands g ∧
      function = Variable.slotOf vars (.function hash) ∧
      result = Variable.slotOf vars (.result source)
  counters : ∀ counter bound target, instruction = .loop counter bound target →
    ∃ source, .counter source ∈ node.demands g ∧
      counter = Variable.slotOf vars (.counter source)

private theorem operand_cases (vars : List Variable) (input : Input) (name : String)
    (slot : Nat) (small : slot ≤ 1) :
    (∀ frame, input.operand vars slot = .frame frame →
      frame.toNat < slot + (input.constants name).length) ∧
    (∀ global, input.operand vars slot = .global global →
      ∃ source, .result source ∈ input.demands ∧
        global = Variable.slotOf vars (.result source)) := by
  cases input with
  | constant value =>
    refine ⟨?_, ?_⟩
    · rintro frame same
      obtain rfl : slot.toUInt16 = frame := by simpa [Input.operand] using same
      have exact : slot.toUInt16.toNat = slot :=
        UInt16.toNat_ofNat_of_lt' (Nat.lt_of_le_of_lt small (by decide))
      rw [exact]
      simp [Input.constants]
    · rintro global same
      cases same
  | result source =>
    refine ⟨?_, ?_⟩
    · rintro frame same
      cases same
    · rintro global same
      obtain rfl := Operand.global.inj same
      exact ⟨source, by simp [Input.demands], rfl⟩

/-- A node that something can be linked to is for one instruction. -/
theorem Node.operation_serves (g : Graph) (vars : List Variable) (exit : Addr) (node : Node)
    (entered : node.type.inputs ≠ []) :
    ∃ instruction, node.operation g vars exit = [instruction] ∧
      Serves g vars exit node instruction := by
  obtain ⟨uuid, kind, position⟩ := node
  cases kind with
  | start | value => simp [Node.type, NodeKind.type, NodeType.inputs] at entered
  | wait | deleteObject | sendEvent | function | loop =>
    refine ⟨_, rfl, ?_⟩
    constructor <;> simp [Instruction.goesOn, Instruction.target?, Instruction.operands,
      Instruction.frameSlots, Node.constants, Node.demands, Node.type, NodeKind.type,
      NodeType.branches]
  | compare op =>
    have short : ((g.input uuid 1).constants "t_a").length ≤ 1 := by
      cases g.input uuid 1 <;> simp [Input.constants]
    obtain ⟨firstFrame, firstGlobal⟩ := operand_cases vars (g.input uuid 1) "t_a" 0 (by omega)
    obtain ⟨secondFrame, secondGlobal⟩ := operand_cases vars (g.input uuid 2) "t_b" _ short
    refine ⟨_, rfl, ⟨rfl, ?_, ?_, rfl, ?_, by simp, by simp⟩⟩
    · intro target same
      exact ⟨rfl, (Option.some.inj same).symm⟩
    · intro slot member
      simp only [Instruction.operands, List.mem_cons, List.not_mem_nil, or_false] at member
      simp only [Node.constants, List.length_append]
      rcases member with same | same
      · have := firstFrame slot same.symm
        omega
      · exact secondFrame slot same.symm
    · intro slot member
      simp only [Instruction.operands, List.mem_cons, List.not_mem_nil, or_false] at member
      rcases member with same | same
      · obtain ⟨source, asked, equal⟩ := firstGlobal slot same.symm
        exact ⟨source, List.mem_append_left _ asked, equal⟩
      · obtain ⟨source, asked, equal⟩ := secondGlobal slot same.symm
        exact ⟨source, List.mem_append_right _ asked, equal⟩

namespace Layout

variable {g : Graph} {after : List Uuid} {layout : Layout}

/-- What stands at an address of a unit. -/
inductive Stands (g : Graph) (after : List Uuid) (layout : Layout) : Nat → Instruction → Prop
  | constant {node : Node} (member : node ∈ layout.nodes) {index : Nat} {value : Int64}
      (inside : index < (node.constants g).length) :
      Stands g after layout (layout.address g node.uuid + index) (.setLocal index.toUInt16 value)
  | operation {node : Node} (member : node ∈ layout.nodes) {exit : Nat}
      {instruction : Instruction}
      (block : BlockAt g (layout.vars g) (layout.instructions g) (layout.address g) after exit node)
      (serves : Serves g (layout.vars g) exit.toUInt32 node instruction) :
      Stands g after layout (layout.address g node.uuid + (node.constants g).length) instruction
  | finish (pc : Nat) : Stands g after layout pc .finish
  | jump (pc : Nat) {uuid : Uuid} (member : uuid ∈ after) :
      Stands g after layout pc (.jump (layout.address g uuid).toUInt32)

namespace Closed

/-- A placed node has its constants and one instruction. -/
theorem size_eq (closed : layout.Closed g after) {node : Node} (member : node ∈ layout.nodes) :
    node.size g = (node.constants g).length + 1 := by
  obtain ⟨instruction, only, -⟩ := node.operation_serves g [] 0 (closed.node_mem member).2
  exact Node.size_of_operation g only

/-- Within a block stand its constants and its instruction, and control goes on. -/
theorem stands_of_inside (closed : layout.Closed g after) {node : Node}
    (member : node ∈ layout.nodes) {pc : Nat} (inside : Inside g (layout.address g) node pc)
    {instruction : Instruction} (found : (layout.instructions g)[pc]? = some instruction) :
    Stands g after layout pc instruction ∧ instruction.goesOn = true := by
  obtain ⟨exit, block⟩ := closed.block member
  obtain ⟨lower, upper⟩ := inside
  rw [closed.size_eq member] at upper
  obtain ⟨index, rfl⟩ := Nat.exists_eq_add_of_le lower
  by_cases early : index < (node.constants g).length
  · have bound := Node.getElem?_code_constant g (layout.vars g) exit.toUInt32 node
      (List.getElem?_eq_getElem early)
    have there := block.block.getElem? (List.getElem?_eq_some_iff.mp bound).1
    obtain rfl := Option.some.inj (found.symm.trans (there.trans bound))
    exact ⟨.constant member early, rfl⟩
  · obtain rfl : index = (node.constants g).length := by omega
    obtain ⟨operation, only, serves⟩ := node.operation_serves g (layout.vars g) exit.toUInt32
      (closed.node_mem member).2
    have behind := block.block.right
    rw [Node.length_bindings, only] at behind
    obtain rfl := Option.some.inj (found.symm.trans behind.head)
    exact ⟨.operation member block serves, serves.onward⟩

theorem stands (closed : layout.Closed g after) {pc : Nat} {instruction : Instruction}
    (found : (layout.instructions g)[pc]? = some instruction) :
    Stands g after layout pc instruction := by
  have upper := (List.getElem?_eq_some_iff.mp found).1
  rw [instructions, length_code] at upper
  rcases covers closed.laid (Placed.whole _) closed.agree (List.Subset.refl _) (Nat.zero_le pc)
    (by omega) with ⟨node, member, inside⟩ | links
  · exact (closed.stands_of_inside member inside found).1
  · rcases links with finish | ⟨uuid, member, jump⟩
    · obtain rfl := Option.some.inj (found.symm.trans finish)
      exact .finish pc
    · obtain rfl := Option.some.inj (found.symm.trans jump)
      exact .jump pc member

theorem address_lt (closed : layout.Closed g after) {node : Node} (member : node ∈ layout.nodes) :
    layout.address g node.uuid + node.size g ≤ (layout.instructions g).length := by
  obtain ⟨exit, block⟩ := closed.block member
  have within := block.block.length_le
  rwa [Node.length_code] at within

/-- What leads somewhere stands in the code. -/
theorem leads_lt (closed : layout.Closed g after) {pc : Nat} {target : Option Uuid}
    (leads : Leads (layout.instructions g) (layout.address g) after pc target) :
    pc < (layout.instructions g).length := by
  cases leads with
  | stop found => exact (List.getElem?_eq_some_iff.mp found).1
  | jump member found => exact (List.getElem?_eq_some_iff.mp found).1
  | here member =>
    obtain ⟨node, inside, rfl⟩ := closed.node_of_mem member
    have within := closed.address_lt inside
    have nonempty := closed.size_eq inside
    omega

theorem kind_slotOf (closed : layout.Closed g after) {v : Variable} (member : v ∈ layout.vars g) :
    (layout.program g).kind? (Variable.slotOf (layout.vars g) v) = some v.kind := by
  have few := closed.few
  have found := Variable.getElem?_slotOf member (by omega)
  simp [Program.kind?, program, found]
  rfl

theorem stands_of_mem (closed : layout.Closed g after) {instruction : Instruction}
    (member : instruction ∈ (layout.program g).code) :
    ∃ pc, Stands g after layout pc instruction := by
  obtain ⟨pc, found⟩ := List.mem_iff_getElem?.mp (List.mem_toArray.mp member)
  exact ⟨pc, closed.stands found⟩

end Closed

/-- Where control goes on from an instruction there is code. -/
theorem Stands.onward_lt (closed : layout.Closed g after) {pc : Nat} {instruction : Instruction}
    (stands : Stands g after layout pc instruction) (onward : instruction.goesOn = true) :
    pc + 1 < (layout.instructions g).length := by
  cases stands with
  | constant member inside =>
    have within := closed.address_lt member
    have size := closed.size_eq member
    omega
  | operation member block serves =>
    have follows := closed.leads_lt block.follows
    have size := closed.size_eq member
    omega
  | finish | jump => cases onward

theorem Stands.target_lt (closed : layout.Closed g after) {pc : Nat} {instruction : Instruction}
    (stands : Stands g after layout pc instruction) {target : Addr}
    (aimed : instruction.target? = some target) :
    target.toNat < (layout.instructions g).length := by
  cases stands with
  | constant | finish => cases aimed
  | operation member block serves =>
    obtain ⟨double, rfl⟩ := serves.target target aimed
    have inside := (block.fails double).1
    rwa [closed.toNat_toUInt32 (Nat.le_of_lt inside)]
  | @jump pc uuid member =>
    obtain rfl := Option.some.inj aimed
    have inside := closed.leads_lt (.here member)
    rwa [closed.toNat_toUInt32 (Nat.le_of_lt inside)]

/-- The frame has room for the slots of every block. -/
theorem Stands.slot_lt {pc : Nat} {instruction : Instruction}
    (stands : Stands g after layout pc instruction) {slot : Slot}
    (used : slot ∈ instruction.frameSlots) : slot.toNat < layout.frame g := by
  cases stands with
  | constant placed inside =>
    have enough := Nat.lt_of_lt_of_le inside (length_constants_le_frame (g := g) placed)
    have small := Nat.lt_of_lt_of_le enough (layout.frame_le g)
    obtain rfl := List.mem_singleton.mp used
    rwa [Nat.toUInt16_eq, UInt16.toNat_ofNat_of_lt' (Nat.lt_trans small (by decide))]
  | operation placed block serves =>
    have enough := length_constants_le_frame (g := g) placed
    rw [serves.slots] at used
    obtain ⟨operand, read, same⟩ := List.mem_filterMap.mp used
    cases operand with
    | constant | global => cases same
    | frame other =>
      obtain rfl := Option.some.inj same
      have bound := serves.frame other read
      omega
  | finish | jump => simp [Instruction.frameSlots, Instruction.operands] at used

/-- A unit is a well-formed program. -/
theorem Closed.wellFormed (closed : layout.Closed g after) : (layout.program g).WellFormed where
  addressable := closed.length_instructions
  entries := by
    intro trigger entry found
    cases linked : g.successor? g.start.uuid trigger.pin with
    | none =>
      rw [closed.entry_unlinked linked] at found
      cases found
    | some target =>
      obtain ⟨base, inside, same, -⟩ := closed.entry_linked linked
      obtain rfl := Option.some.inj (same.symm.trans found)
      rwa [closed.toNat_toUInt32 (Nat.le_of_lt inside)]
  targets := by
    intro instruction member target aimed
    obtain ⟨pc, stands⟩ := closed.stands_of_mem member
    exact stands.target_lt closed aimed
  onward := by
    intro pc instruction found onward
    rw [getElem?_code] at found
    exact (closed.stands found).onward_lt closed onward
  calls := by
    intro function argument result member
    obtain ⟨pc, stands⟩ := closed.stands_of_mem member
    cases stands with
    | operation placed block serves =>
      obtain ⟨hash, source, asked, asked', rfl, rfl⟩ := serves.calls _ _ _ rfl
      have declared := demands_subset (g := g) placed
      exact ⟨⟨hash, closed.kind_slotOf (declared asked)⟩, closed.kind_slotOf (declared asked')⟩
  counters := by
    intro counter bound exit member
    obtain ⟨pc, stands⟩ := closed.stands_of_mem member
    cases stands with
    | operation placed block serves =>
      obtain ⟨source, asked, rfl⟩ := serves.counters _ _ _ rfl
      exact closed.kind_slotOf (demands_subset placed asked)
  globals := by
    intro instruction member slot read
    obtain ⟨pc, stands⟩ := closed.stands_of_mem member
    cases stands with
    | constant | finish | jump => simp [Instruction.operands] at read
    | operation placed block serves =>
      obtain ⟨source, asked, rfl⟩ := serves.globals slot read
      exact closed.kind_slotOf (demands_subset placed asked)
  frame := by
    intro instruction member slot used
    rw [program, layout.toNat_frame g]
    obtain ⟨pc, stands⟩ := closed.stands_of_mem member
    exact stands.slot_lt used
  names := by
    have named : (layout.program g).globals.toList.map Global.name =
        (layout.vars g).map Variable.name := by
      simp only [program, List.map_map]
      exact List.map_congr_left fun v _ => rfl
    rw [named]
    exact (nodup_vars g layout).map fun _ _ same => Variable.name_injective same

/-- Blocks do not overlap. -/
theorem Closed.eq_of_inside (closed : layout.Closed g after) {node other : Node}
    (member : node ∈ layout.nodes) (member' : other ∈ layout.nodes) {pc : Nat}
    (inside : Inside g (layout.address g) node pc)
    (inside' : Inside g (layout.address g) other pc) : node = other := by
  by_contra different
  let Apart (m n : Node) : Prop :=
    layout.address g m.uuid + m.size g ≤ layout.address g n.uuid ∨
      layout.address g n.uuid + n.size g ≤ layout.address g m.uuid
  have apart : layout.nodes.Pairwise Apart := (ordered closed.laid closed.agree).1.imp Or.inl
  have symmetric : Std.Symm Apart := ⟨fun _ _ => Or.symm⟩
  have := apart.forall member member' different
  obtain ⟨lower, upper⟩ := inside
  obtain ⟨lower', upper'⟩ := inside'
  omega

/-- Control that is led somewhere does not arrive within a block. -/
theorem Closed.eq_address_of_leads (closed : layout.Closed g after) {pc : Nat}
    {target : Option Uuid}
    (leads : Leads (layout.instructions g) (layout.address g) after pc target) {node : Node}
    (member : node ∈ layout.nodes) (inside : Inside g (layout.address g) node pc) :
    pc = layout.address g node.uuid := by
  cases leads with
  | stop found => cases (closed.stands_of_inside member inside found).2
  | jump _ found => cases (closed.stands_of_inside member inside found).2
  | here placed =>
    obtain ⟨other, member', rfl⟩ := closed.node_of_mem placed
    have size := closed.size_eq member'
    have own : Inside g (layout.address g) other (layout.address g other.uuid) :=
      ⟨Nat.le_refl _, by omega⟩
    rw [closed.eq_of_inside member member' inside own]

/-- Within a block, control comes from the instruction before. -/
theorem Closed.before (closed : layout.Closed g after) {pc next : Addr} {instruction : Instruction}
    (found : (layout.program g).code[pc.toNat]? = some instruction)
    (follows : next ∈ Program.successors instruction pc) {node : Node}
    (member : node ∈ layout.nodes) {index : Nat} (within : index + 1 < node.size g)
    (arrived : next.toNat = layout.address g node.uuid + (index + 1)) :
    pc.toNat = layout.address g node.uuid + index := by
  have inside : Inside g (layout.address g) node next.toNat := ⟨by omega, by omega⟩
  have astray : ∀ {target : Option Uuid},
      ¬ Leads (layout.instructions g) (layout.address g) after next.toNat target := by
    intro target leads
    have := closed.eq_address_of_leads leads member inside
    omega
  have there := (Array.getElem?_eq_some_iff.mp found).1
  have onward := closed.wellFormed.toNat_add_one there
  have stands := closed.stands ((getElem?_code g layout pc.toNat).symm.trans found)
  generalize place : pc.toNat = here at stands onward ⊢
  cases stands with
  | @constant other member' index' value inside' =>
    have size := closed.size_eq member'
    simp only [Program.successors, Instruction.goesOn, Instruction.target?, if_true,
      Option.toList_none, List.append_nil, List.mem_singleton] at follows
    subst follows
    have own : Inside g (layout.address g) other (pc + 1).toNat := ⟨by omega, by omega⟩
    obtain rfl := closed.eq_of_inside member member' inside own
    omega
  | @operation other member' exit instruction block serves =>
    have size := closed.size_eq member'
    rcases List.mem_append.mp follows with onward' | jumped
    · simp only [serves.onward, if_true, List.mem_singleton] at onward'
      subst onward'
      have leads := block.follows
      rw [size, ← Nat.add_assoc, ← onward] at leads
      exact absurd leads astray
    · obtain ⟨double, rfl⟩ := serves.target next (Option.mem_toList.mp jumped)
      obtain ⟨exits, leads⟩ := block.fails double
      rw [← closed.toNat_toUInt32 (Nat.le_of_lt exits)] at leads
      exact absurd leads astray
  | finish => simp [Program.successors, Instruction.goesOn, Instruction.target?] at follows
  | @jump _ uuid placed =>
    simp only [Program.successors, Instruction.goesOn, Instruction.target?, Option.toList_some,
      List.mem_append, List.mem_singleton] at follows
    rcases follows with none | rfl
    · simp at none
    · have leads : Leads (layout.instructions g) (layout.address g) after
          (layout.address g uuid) (some uuid) := .here placed
      have inside := closed.leads_lt leads
      rw [← closed.toNat_toUInt32 (Nat.le_of_lt inside)] at leads
      exact absurd leads astray

/-- The labels of a unit tell in whose block an address lies. -/
theorem Closed.blockOf?_inside (closed : layout.Closed g after) {a : Assembly}
    (labelled : a.labels = after.map (labelAt (layout.address g))) {node : Node}
    (member : node ∈ layout.nodes) {pc : Addr}
    (inside : Inside g (layout.address g) node pc.toNat) : a.blockOf? pc = some node.uuid := by
  obtain ⟨before, later, split⟩ := List.append_of_mem member
  have ordered := (ordered closed.laid closed.agree).1
  rw [split] at ordered
  have behind := (List.pairwise_cons.mp (List.pairwise_append.mp ordered).2.1).1
  have exact : ∀ other ∈ layout.nodes,
      (layout.address g other.uuid).toUInt32.toNat = layout.address g other.uuid := by
    intro other placed
    have within := closed.address_lt placed
    exact closed.toNat_toUInt32 (by omega)
  have order : after = later.reverse.map (·.uuid) ++ node.uuid :: before.reverse.map (·.uuid) := by
    have all := closed.laid.after_eq
    rw [List.append_nil] at all
    rw [all, ← nodes, split]
    simp
  have missed : (later.reverse.map (labelAt (layout.address g) ∘ Node.uuid)).find?
      (fun label => decide (label.2 ≤ pc)) = none := by
    rw [List.find?_eq_none]
    intro label found
    obtain ⟨other, placed, rfl⟩ := List.mem_map.mp found
    rw [List.mem_reverse] at placed
    have above := behind other placed
    have value := exact other (by rw [split]; simp [placed])
    obtain ⟨-, upper⟩ := inside
    simp only [labelAt, Function.comp_apply, decide_eq_true_eq, UInt32.le_iff_toNat_le, value]
    omega
  have hit : decide ((labelAt (layout.address g) node.uuid).2 ≤ pc) = true := by
    simp only [labelAt, decide_eq_true_eq, UInt32.le_iff_toNat_le, exact node member]
    exact inside.1
  rw [Assembly.blockOf?, labelled, order, List.map_append, List.map_map, List.find?_append, missed,
    List.map_cons, List.find?_cons, hit]
  rfl

/-- A path that arrives within a block has come straight on from any instruction before it in the
block. -/
theorem Closed.path_inside (closed : layout.Closed g after) {path : List Addr}
    (taken : (layout.program g).Path path) {node : Node} (member : node ∈ layout.nodes)
    {pc : Addr} {earlier : List Addr} (latest : path = pc :: earlier) {index slot : Nat}
    (arrived : pc.toNat = layout.address g node.uuid + index) (within : index < node.size g)
    (below : slot < index) :
    ∃ between binder before, earlier = between ++ binder :: before ∧
      binder.toNat = layout.address g node.uuid + slot ∧
      (pc :: (between ++ [binder])).IsChain (fun later sooner => later = sooner + 1) ∧
      ∀ address ∈ pc :: (between ++ [binder]), Inside g (layout.address g) node address.toNat := by
  induction taken generalizing pc earlier index with
  | @entry trigger entry found =>
    obtain ⟨rfl, -⟩ := List.cons.inj latest
    cases linked : g.successor? g.start.uuid trigger.pin with
    | none =>
      rw [closed.entry_unlinked linked] at found
      cases found
    | some target =>
      obtain ⟨base, inside, same, leads⟩ := closed.entry_linked linked
      obtain rfl := Option.some.inj (same.symm.trans found)
      rw [closed.toNat_toUInt32 (Nat.le_of_lt inside)] at arrived
      have := closed.eq_address_of_leads leads member ⟨by omega, by omega⟩
      omega
  | @step previous next others instruction path found follows ih =>
    obtain ⟨rfl, rfl⟩ := List.cons.inj latest
    obtain ⟨index, rfl⟩ : ∃ less, index = less + 1 := ⟨index - 1, by omega⟩
    have place := closed.before found follows member within arrived
    have straight : next = previous + 1 := by
      have there := (Array.getElem?_eq_some_iff.mp found).1
      have onward := closed.wellFormed.toNat_add_one there
      exact UInt32.toNat_inj.mp (by omega)
    have here : Inside g (layout.address g) node next.toNat := ⟨by omega, by omega⟩
    by_cases adjacent : slot = index
    · subst adjacent
      refine ⟨[], previous, others, rfl, place, ?_, ?_⟩
      · exact .cons_cons straight (.singleton _)
      · simp only [List.nil_append, List.forall_mem_cons]
        exact ⟨here, ⟨by omega, by omega⟩, by simp⟩
    · obtain ⟨between, binder, before, split, bound, chain, inside⟩ :=
        ih rfl place (by omega) (by omega)
      refine ⟨previous :: between, binder, before, by rw [split]; rfl, bound, ?_, ?_⟩
      · exact .cons_cons straight chain
      · rw [List.cons_append, List.forall_mem_cons]
        exact ⟨here, inside⟩

/-- Frames of a unit are read as bound. -/
theorem Closed.readsBound (closed : layout.Closed g after) {a : Assembly}
    (labelled : a.labels = after.map (labelAt (layout.address g))) :
    (layout.program g).ReadsBound a.blockOf? := by
  intro pc earlier instruction slot path found read
  have stands := closed.stands ((getElem?_code g layout pc.toNat).symm.trans found)
  generalize place : pc.toNat = here at stands
  cases stands with
  | constant | finish | jump => simp [Instruction.operands] at read
  | @operation node member exit instruction block serves =>
    have size := closed.size_eq member
    have bound := serves.frame slot read
    obtain ⟨between, binder, before, split, arrived, chain, inside⟩ :=
      closed.path_inside path member rfl place (by omega) bound
    have constant := Node.getElem?_code_constant g (layout.vars g) exit.toUInt32 node
      (List.getElem?_eq_getElem bound)
    have there := block.block.getElem? (List.getElem?_eq_some_iff.mp constant).1
    rw [constant, ← arrived, ← getElem?_code, Nat.toUInt16_eq, UInt16.ofNat_toNat] at there
    exact ⟨between, binder, before, _, node.uuid, split, there, chain, fun address visited =>
      closed.blockOf?_inside labelled member (inside address visited)⟩

end Layout

/-- Compiled programs are well-formed, read their frames as bound, and never trip the machine. For
every accepted graph whose unit fits, compilation succeeds, and however an instance of the script is
loaded, updated and triggered, no address and no frame slot turns out not to exist. -/
theorem compile_sound {nodes : List Node} {links : List Link} {g : Graph}
    (accepted : Graph.ofParts nodes links = .ok g) (asset : String)
    (functions : Option Registry) (fits : Job.Fits ⟨g, asset, functions⟩) (uuid : Uuid) :
    ∃ layout script, Chain.ofGraph g asset = .ok layout ∧
      (Job.compile ⟨g, asset, functions⟩ uuid).value = .ok script ∧
      script.program.WellFormed ∧
      script.program.ReadsBound (Job.draft ⟨g, asset, functions⟩ layout).1.assembly.blockOf? ∧
      ∀ {τ : Type} [Elapsed τ] (table : Table) (index : Nat), table.get? index = some script →
        ∀ (registry : Registry) (owner : ObjectId) (calls : List (Call τ)) (j : Journal),
          ((Instance.new owner).follow table registry index calls j).2.faults = j.faults := by
  obtain ⟨rfl, formed⟩ := (Graph.ofParts_eq_ok_iff nodes links g).mp accepted
  obtain ⟨layout, after, laid, closed⟩ := fits.closed formed
  obtain ⟨script, compiled, program, -⟩ := Job.compile_closed laid closed uuid
  have sound : script.program.WellFormed := program ▸ closed.wellFormed
  refine ⟨layout, script, laid, compiled, sound, ?_, ?_⟩
  · rw [program]
    exact closed.readsBound (Layout.Closed.lowered closed).1.labels
  · intro τ _ table index found registry owner calls j
    have fresh : Instance.Sound (Instance.new (τ := τ) owner) := by
      intro other stored
      cases stored
    exact fresh.follow sound found registry calls j

/-- The sample graph: its unit is well-formed, and no call of an instance of it is at fault. -/
theorem compile_sound_sample :
    ∃ layout script, Chain.ofGraph Graph.sample "sample" = .ok layout ∧
      (Job.compile ⟨Graph.sample, "sample", none⟩ 9).value = .ok script ∧
      script.program.WellFormed ∧
      script.program.ReadsBound
        (Job.draft ⟨Graph.sample, "sample", none⟩ layout).1.assembly.blockOf? ∧
      ∀ (registry : Registry) (calls : List (Call Millis)),
        ((Instance.new 7).follow ⟨[script]⟩ registry 0 calls .empty).2.faults = 0 := by
  obtain ⟨layout, script, laid, compiled, formed, bound, faultless⟩ :=
    compile_sound Graph.sample_accepted "sample" none Graph.sample_fits 9
  exact ⟨layout, script, laid, compiled, formed, bound, fun registry calls =>
    faultless ⟨[script]⟩ 0 rfl registry 7 calls .empty⟩

end NodeScript
