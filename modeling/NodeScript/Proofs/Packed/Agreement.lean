import NodeScript.Proofs.Compile.Reach
import NodeScript.Proofs.Packed.Roundtrip

/-!
Packing and compiling agree. Both follow a graph in the same order, so the records behind that of
Start are those of the placed nodes in the order of their addresses; and the block of a node does
what its record says, with numbers cut to what records can hold.
-/
namespace NodeScript

/-! Counters -/

/-- The number of counters among the globals before a slot. -/
def Program.countersBefore (p : Program) (slot : Slot) : Nat :=
  (p.globals.toList.take slot.toNat).countP (·.kind = .counter)

theorem getElem?_filter {α : Type} {p : α → Bool} {items : List α} {index : Nat} {item : α}
    (at_index : items[index]? = some item) (holds : p item = true) :
    (items.filter p)[(items.take index).countP p]? = some item := by
  induction items generalizing index with
  | nil => cases at_index
  | cons first rest ih =>
    cases index with
    | zero =>
      cases at_index
      simp [holds]
    | succ index =>
      have later := ih at_index
      rw [List.take_succ_cons, List.countP_cons, List.filter_cons]
      split
      · simpa using later
      · simpa using later

namespace Variable

def isCounter : Variable → Bool
  | counter _ => true
  | _ => false

/-- Of the declared variables those of one sort stand in the order in which they are asked for. -/
theorem filter_declareAll (p : Variable → Bool) (vars more : List Variable) :
    (declareAll vars more).filter p = declareAll (vars.filter p) (more.filter p) := by
  induction more generalizing vars with
  | nil => rfl
  | cons v rest ih =>
    rw [declareAll_cons, ih]
    unfold declare
    cases sort : p v <;> by_cases known : v ∈ vars <;> simp [sort, known, declare]

theorem declareAll_of_nodup {vars more : List Variable} (distinct : (vars ++ more).Nodup) :
    declareAll vars more = vars ++ more := by
  induction more generalizing vars with
  | nil => simp
  | cons v rest ih =>
    have new : v ∉ vars := fun member =>
      (List.disjoint_of_nodup_append distinct) member List.mem_cons_self
    rw [declareAll_cons, declare, if_neg new, ih (by simpa using distinct)]
    simp

end Variable

theorem Node.counter_demands (g : Graph) (node : Node) :
    (node.demands g).filter Variable.isCounter =
      if node.type = .loop then [.counter node.uuid] else [] := by
  have inputs (input : Input) : input.demands.filter Variable.isCounter = [] := by
    cases input <;> rfl
  unfold demands Node.type
  cases node.kind with
  | compare op => rw [List.filter_append, inputs, inputs]; rfl
  | _ => rfl

theorem Chain.counter_demands (g : Graph) (chain : Chain) :
    (chain.demands g).filter Variable.isCounter =
      (chain.nodes.filter (·.type = .loop)).map fun node => .counter node.uuid := by
  induction chain with
  | stop | jump => rfl
  | step node rest ih =>
    rw [demands, List.filter_append, node.counter_demands, ih, nodes, List.filter_cons]
    split <;> simp_all
  | branch node first second firstIh secondIh =>
    rw [demands, List.filter_append, List.filter_append, node.counter_demands, firstIh, secondIh,
      nodes, List.filter_cons, List.filter_append]
    split <;> simp_all

namespace Layout

variable {g : Graph} {after : List Uuid} {layout : Layout}

/-- The counters of a unit are those of its loops, in the order of their placement. -/
theorem Closed.counters (closed : layout.Closed g after) :
    (layout.vars g).filter Variable.isCounter =
      (layout.nodes.filter (·.type = .loop)).map fun node => .counter node.uuid := by
  have asked : (layout.demands g).filter Variable.isCounter =
      (layout.nodes.filter (·.type = .loop)).map fun node => .counter node.uuid := by
    simp [demands, nodes, List.filter_flatMap, Chain.counter_demands, List.map_flatMap]
  have distinct : ((layout.nodes.filter (·.type = .loop)).map fun node =>
      Variable.counter node.uuid).Nodup := by
    have loops := (nodup_nodes closed.laid).sublist
      ((List.filter_sublist (p := fun node : Node => node.type = .loop)).map (·.uuid))
    have counters := loops.map (fun _ _ => Variable.counter.inj : Function.Injective Variable.counter)
    rw [List.map_map] at counters
    exact counters
  rw [vars, Variable.filter_declareAll, asked, List.filter_nil, Variable.declareAll_of_nodup]
  · simp
  · simpa using distinct

/-- A loop's counter has as many counters before it as there are loops before the loop. -/
theorem Closed.countersBefore (closed : layout.Closed g after) {index : Nat} {node : Node}
    (at_index : layout.nodes[index]? = some node) (loop : node.type = .loop) :
    (layout.program g).countersBefore (Variable.slotOf (layout.vars g) (.counter node.uuid)) =
      (layout.nodes.take index).countP (·.type = .loop) := by
  have asked : Variable.counter node.uuid ∈ layout.vars g := by
    refine demands_subset (List.mem_of_getElem? at_index) ?_
    have counter := node.counter_demands g
    rw [if_pos loop] at counter
    exact (List.mem_filter.mp (counter ▸ List.mem_singleton_self _)).1
  have slot := Variable.slotOf_toNat asked (Nat.le_succ_of_le closed.few)
  have kinds (v : Variable) : decide (v.declaration.global.kind = .counter) = v.isCounter := by
    cases v <;> rfl
  have before : (layout.program g).countersBefore
      (Variable.slotOf (layout.vars g) (.counter node.uuid)) =
      ((layout.vars g).take ((layout.vars g).idxOf (.counter node.uuid))).countP
        Variable.isCounter := by
    simp [Program.countersBefore, slot, program, ← List.map_take, List.countP_map,
      Function.comp_def, kinds]
  have atSlot := getElem?_filter (p := Variable.isCounter) (List.getElem?_idxOf asked) rfl
  have atLoop := congrArg (Option.map fun node : Node => Variable.counter node.uuid)
    (getElem?_filter (p := fun node => node.type = .loop) at_index (decide_eq_true loop))
  rw [← List.getElem?_map, ← closed.counters, Option.map_some] at atLoop
  rw [before]
  exact (List.getElem?_inj (List.getElem?_eq_some_iff.mp atSlot).1
    ((layout.nodup_vars g).filter _)).mp (atSlot.trans atLoop.symm)

end Layout

/-! Blocks -/

namespace Packed

/-- A comparison reads what the record holds. A number is bound within the block, whose constants
stand from an address on; for the result of a call, which cannot be packed, the record holds zero. -/
inductive ReadsAs (p : Program) (address constants : Nat) : Operand → Int32 → Prop
  | constant {slot : Slot} {value : Int64} {packed : Int32} (inside : slot.toNat < constants)
      (binding : p.code[address + slot.toNat]? = some (.setLocal slot value))
      (same : packed.toInt = value.toInt) : ReadsAs p address constants (.frame slot) packed
  | result {slot : Slot} {global : Global} (found : p.globals[slot.toNat]? = some global)
      (kind : global.kind = .number) : ReadsAs p address constants (.global slot) 0

/-- The block at an address of a program does what a payload says, where numbers that are too large
for a record have been cut. -/
inductive Payload.RunsAt (p : Program) (address : Nat) : Payload → Prop
  | wait {duration : Int64} {millis : UInt16}
      (binding : p.code[address]? = some (.setLocal 0 duration))
      (test : p.code[address + 1]? = some (.sleep (.frame 0)))
      (cut : (millis.toNat : Int) = min duration.toInt 65535) : RunsAt p address (.wait millis)
  | deleteObject {object : UInt16}
      (binding : p.code[address]? = some (.setLocal 0 (Int64.ofNat object.toNat)))
      (operation : p.code[address + 1]? = some (.deleteObject (.frame 0))) :
      RunsAt p address (.deleteObject object)
  | sendEvent {object eventType : UInt16} {value : UInt32}
      (binding : p.code[address]? = some (.setLocal 0 (Int64.ofNat object.toNat)))
      (binding₁ : p.code[address + 1]? = some (.setLocal 1 (Int64.ofNat eventType.toNat)))
      (binding₂ : p.code[address + 2]? = some (.setLocal 2 (Int64.ofNat value.toNat)))
      (operation : p.code[address + 3]? = some (.sendEvent (.frame 0) (.frame 1) (.frame 2))) :
      RunsAt p address (.sendEvent object eventType value)
  | compare {op : CompareOp} {a b : Int32} {constants : Nat} {lhs rhs : Operand} {target : Addr}
      (operation : p.code[address + constants]? = some (.jumpUnless op lhs rhs target))
      (left : ReadsAs p address constants lhs a) (right : ReadsAs p address constants rhs b) :
      RunsAt p address (.compare op a b)
  | loop {counter : Slot} {bound : UInt32} {exit : Addr} {global : Global} {slot count : UInt8}
      (operation : p.code[address]? = some (.loop counter bound exit))
      (found : p.globals[counter.toNat]? = some global) (kind : global.kind = .counter)
      (numbered : slot.toNat = p.countersBefore counter)
      (cut : count.toNat = min bound.toNat 255) : RunsAt p address (.loop slot count)
  | function {function result : Slot} {global : Global} {hash argument : UInt32}
      (binding : p.code[address]? = some (.setLocal 0 (Int64.ofNat argument.toNat)))
      (operation : p.code[address + 1]? = some (.call function (.frame 0) result))
      (found : p.globals[function.toNat]? = some global) (kind : global.kind = .function hash) :
      RunsAt p address (.function hash argument)

end Packed

namespace Layout.Closed

open Packed

variable {g : Graph} {after : List Uuid} {layout : Layout} {node : Node} {index : Nat}

theorem global (closed : layout.Closed g after) {v : Variable} (asked : v ∈ layout.vars g) :
    (layout.program g).globals[(Variable.slotOf (layout.vars g) v).toNat]? =
      some v.declaration.global := by
  have found := Variable.getElem?_slotOf asked (Nat.le_succ_of_le closed.few)
  simp [program, found]

/-- The instructions of the block of a placed node. -/
theorem code_at (closed : layout.Closed g after) (member : node ∈ layout.nodes) :
    ∃ exit : Addr, ∀ (offset : Nat) (instruction : Instruction),
      (node.code g (layout.vars g) exit)[offset]? = some instruction →
      (layout.program g).code[layout.address g node.uuid + offset]? = some instruction := by
  obtain ⟨exit, block⟩ := closed.block member
  refine ⟨exit.toUInt32, fun offset instruction found => ?_⟩
  rw [getElem?_code, block.block.getElem? (List.getElem?_eq_some_iff.mp found).1, found]

end Layout.Closed

/-- What packing knows of an input. -/
def Input.known : Input → Int
  | constant value => value.toInt
  | result _ => 0

theorem Graph.known_input (g : Graph) (node : Uuid) (pin : UInt16) :
    (g.input node pin).known = (g.linkedValue? node pin).elim 0 fun number => (number.toNat : Int) := by
  unfold input linkedValue?
  cases g.linkInto? node pin with
  | none => rfl
  | some link =>
    cases found : g.node? link.fromNode with
    | none => simp [found, Input.known]
    | some source =>
      cases kind : source.kind with
      | value number =>
        have small := number.toNat_lt
        simp only [found, kind, Option.map_some, Option.bind_eq_bind, Option.bind_some,
          Option.elim_some, Input.known]
        exact Int64.toInt_ofNat_of_lt (by omega)
      | function name argument =>
        by_cases second : link.fromPin = 1 <;> simp [found, kind, second, Input.known]
      | _ => simp [found, kind, Input.known]

theorem toInt_pauseLength (time : Binary32) :
    (pauseLength time).toInt = min (waitMillis time).toNat 0x7FFFFFFFFFFFFFFF :=
  Int64.toInt_ofNat_of_lt (by omega)

namespace Layout.Closed

open Packed

variable {g : Graph} {after : List Uuid} {layout : Layout} {node : Node} {index : Nat}

/-- An operand of a comparison reads what is known of its input. -/
theorem readsAs (closed : layout.Closed g after) {address constants : Nat} {input : Input}
    {name : String} (before : List Constant) {packed : Int32}
    (asked : input.demands ⊆ layout.vars g)
    (bound : ∀ (offset : Nat) (constant : Constant),
      (before ++ input.constants name)[offset]? = some constant →
      (layout.program g).code[address + offset]? =
        some (.setLocal offset.toUInt16 constant.value))
    (inside : before.length + (input.constants name).length ≤ constants) (few : constants ≤ 3)
    (known : packed.toInt = input.known) :
    ReadsAs (layout.program g) address constants (input.operand (layout.vars g) before.length)
      packed := by
  cases input with
  | constant value =>
    simp only [Input.constants, List.length_singleton] at inside bound
    have slot : before.length.toUInt16.toNat = before.length :=
      UInt16.toNat_ofNat_of_lt' (Nat.lt_of_le_of_lt (m := 3) (by omega) (by decide))
    refine .constant (by rw [slot]; omega) ?_ known
    rw [slot]
    exact bound before.length ⟨"int32_t", name, value⟩ (by simp)
  | result source =>
    obtain rfl := Int32.toInt_inj.mp (known.trans Int32.toInt_zero.symm)
    exact .result (closed.global (asked (List.mem_singleton_self _))) rfl

/-- The block of a comparison reads what is known of its inputs. -/
theorem runsAt_compare (closed : layout.Closed g after) (member : node ∈ layout.nodes)
    {op : CompareOp} (kind : node.kind = .compare op) {a b : Int32}
    (left : a.toInt = (g.input node.uuid 1).known) (right : b.toInt = (g.input node.uuid 2).known) :
    Payload.RunsAt (layout.program g) (layout.address g node.uuid) (.compare op a b) := by
  obtain ⟨exit, code⟩ := closed.code_at member
  have asked := demands_subset (g := g) member
  simp only [Node.demands, kind] at asked
  obtain ⟨askedLeft, askedRight⟩ := List.append_subset.mp asked
  have constants : node.constants g = (g.input node.uuid 1).constants "t_a"
      ++ (g.input node.uuid 2).constants "t_b" := by rw [Node.constants, kind]
  have few := node.length_constants_le g
  have bound (offset : Nat) (constant : Constant)
      (found : (node.constants g)[offset]? = some constant) :
      (layout.program g).code[layout.address g node.uuid + offset]? =
        some (.setLocal offset.toUInt16 constant.value) :=
    code offset _ (Node.getElem?_code_constant g _ _ node found)
  have count := congrArg List.length constants
  rw [List.length_append] at count
  rw [constants] at bound
  have boundLeft (offset : Nat) (constant : Constant)
      (found : ((g.input node.uuid 1).constants "t_a")[offset]? = some constant) :=
    bound offset constant
      ((List.getElem?_append_left (List.getElem?_eq_some_iff.mp found).1).trans found)
  have test : (node.code g (layout.vars g) exit)[(node.constants g).length]? =
      some (.jumpUnless op ((g.input node.uuid 1).operand (layout.vars g) 0)
        ((g.input node.uuid 2).operand (layout.vars g)
          ((g.input node.uuid 1).constants "t_a").length) exit) := by
    rw [Node.code, List.getElem?_append_right (Node.length_bindings 0 _).le,
      Node.length_bindings, Nat.sub_self, Node.operation, kind]
    rfl
  exact .compare (code _ _ test)
    (closed.readsAs [] askedLeft boundLeft (by simp only [List.length_nil]; omega) few left)
    (closed.readsAs _ askedRight bound (by omega) few right)

/-- The block of a placed node does what a payload says that tells of the node. -/
theorem runsAt (closed : layout.Closed g after) (at_index : layout.nodes[index]? = some node)
    {data : Payload}
    (tells : data.Tells g node.uuid ((layout.nodes.take index).countP (·.type = .loop)) node.kind) :
    data.RunsAt (layout.program g) (layout.address g node.uuid) := by
  have member := List.mem_of_getElem? at_index
  obtain ⟨exit, code⟩ := closed.code_at member
  have asked := demands_subset (g := g) member
  generalize kind : node.kind = described at tells
  cases tells with
  | start | value => exact absurd (by rw [Node.type, kind]; rfl) (closed.node_mem member).2
  | @wait time millis pause =>
    simp only [Node.code, Node.constants, Node.operation, kind, Node.bindings] at code
    refine .wait (code 0 _ rfl) (code 1 _ rfl) ?_
    rw [toInt_pauseLength, pause]
    omega
  | deleteObject object =>
    simp only [Node.code, Node.constants, Node.operation, kind, Node.bindings] at code
    exact .deleteObject (code 0 _ rfl) (code 1 _ rfl)
  | sendEvent object eventType value =>
    simp only [Node.code, Node.constants, Node.operation, kind, Node.bindings] at code
    exact .sendEvent (code 0 _ rfl) (code 1 _ rfl) (code 2 _ rfl) (code 3 _ rfl)
  | compare op left right =>
    exact closed.runsAt_compare member kind (left.trans (g.known_input node.uuid 1).symm)
      (right.trans (g.known_input node.uuid 2).symm)
  | @loop count slot rounds numbered bound =>
    have loop : node.type = .loop := by rw [Node.type, kind]; rfl
    simp only [Node.demands, kind] at asked
    simp only [Node.code, Node.constants, Node.operation, kind, Node.bindings] at code
    exact .loop (code 0 _ rfl) (closed.global (asked (List.mem_singleton_self _))) rfl
      (numbered.trans (closed.countersBefore at_index loop).symm) bound
  | function name argument =>
    simp only [Node.demands, kind] at asked
    simp only [Node.code, Node.constants, Node.operation, kind, Node.bindings] at code
    exact .function (code 0 _ rfl) (code 1 _ rfl) (closed.global (asked List.mem_cons_self)) rfl

end Layout.Closed

namespace Packed

/-- Packing and compiling take a graph for the same. Where both succeed, the records behind that of
Start are those of the nodes that have an address in the compiled code, in the order of these
addresses, and the block at each address does what the record says. The script that heads the packed
graph need not be the compiled one. -/
theorem records_agree_with_blocks {job : Job} {nodes : List Node} {links : List Link}
    (accepted : Graph.ofParts nodes links = .ok job.graph) {uuid : Uuid} {script header : Script}
    {bytes : List UInt8} (compiled : (job.compile uuid).value = .ok script)
    (packed : (packLogged job.graph header).value = .ok bytes) :
    ∃ (layout : Layout) (start : Unpacked) (records : List Unpacked) (placed : List Node)
      (addresses : List Addr),
      Chain.ofGraph job.graph job.asset = .ok layout ∧
      script.program.code = (job.draft layout).1.assembly.code ∧
      unpack bytes = .ok ⟨header.uuid, header.stackSize, start :: records⟩ ∧
      start.type = .start ∧ records.length = placed.length ∧
      (∀ uuid, uuid ∈ placed.map (·.uuid) ↔
        ((job.draft layout).1.assembly.addressOf? uuid).isSome) ∧
      placed.map (fun node => (job.draft layout).1.assembly.addressOf? node.uuid) =
        addresses.map some ∧
      addresses.Pairwise (· < ·) ∧
      ∀ (index : Nat) (node : Node) (record : Unpacked) (address : Addr),
        placed[index]? = some node → records[index]? = some record →
        addresses[index]? = some address → job.graph.node? node.uuid = some node ∧
          Describes job.graph (job.graph.start :: placed) (start :: records) (index + 1) node record ∧
          record.payload.RunsAt script.program address.toNat := by
  have formed := ((Graph.ofParts_eq_ok_iff nodes links _).mp accepted).2
  obtain ⟨count, packed⟩ := pack_of_packLogged packed
  obtain ⟨visited, after', all, entered, read, length, few, -, each⟩ := unpack_of_pack packed
  obtain ⟨layout, after, success, laid⟩ := Chain.ofGraph_success formed job.asset
  obtain ⟨rfl, -⟩ := entered.unique (Layout.preorder formed laid)
  match all with
  | [] => cases length
  | start :: records =>
    rw [List.length_cons] at length few
    rw [List.length_cons] at length
    obtain ⟨after, closed⟩ := Job.closed_of_compile formed compiled success (by omega)
    obtain ⟨script', compiled', program, -⟩ := Job.compile_closed success closed uuid
    obtain rfl := Except.ok.inj (compiled.symm.trans compiled')
    obtain ⟨layout', success', -, same⟩ := Job.compile_eq_ok compiled
    obtain rfl := Except.ok.inj (success.symm.trans success')
    refine ⟨layout, start, records, Layout.nodes layout,
      (Layout.nodes layout).map fun node => (Layout.address job.graph layout node.uuid).toUInt32, success,
      by rw [same]; rfl, read, (each 0 _ _ rfl rfl).type.trans formed.node?_start.2,
      by omega, closed.isSome_addressOf?, ?_, closed.pairwise_addresses, ?_⟩
    · rw [List.map_map]
      exact List.map_congr_left fun node member => closed.addressOf?_eq member
    · intro index node record address at_index recorded addressed
      have member := List.mem_of_getElem? at_index
      have describes := each (index + 1) node record at_index recorded
      refine ⟨(closed.node_mem member).1, describes, ?_⟩
      rw [List.getElem?_map, at_index, Option.map_some, Option.some.injEq] at addressed
      rw [← addressed, closed.toNat_address member, program]
      refine closed.runsAt at_index ?_
      have tells := describes.payload
      rwa [List.take_succ_cons, List.countP_cons_of_neg (by simp [formed.node?_start.2])] at tells

/-- The sample graph, compiled, and packed under the compiled script. -/
theorem records_agree_with_blocks_sample :
    ∃ script bytes start records, ∃ addresses : List Addr,
      (Job.compile ⟨Graph.sample, "sample", none⟩ 9).value = .ok script ∧
      (packLogged Graph.sample script).value = .ok bytes ∧
      unpack bytes = .ok ⟨script.uuid, script.stackSize, start :: records⟩ ∧
      records.length = 6 ∧ addresses.length = 6 ∧ addresses.Pairwise (· < ·) ∧
      ∀ (index : Nat) (record : Unpacked) (address : Addr), records[index]? = some record →
        addresses[index]? = some address → record.payload.RunsAt script.program address.toNat := by
  have formed := ((Graph.ofParts_eq_ok_iff _ _ _).mp Graph.sample_accepted).2
  obtain ⟨layout, after, laid, closed⟩ := Graph.sample_fits.closed formed
  obtain ⟨script, compiled, -⟩ := Job.compile_closed laid closed 9
  have known : script =
      (Job.compile ⟨Graph.sample, "sample", none⟩ 9).value.toOption.getD .dummy := by
    rw [compiled]
    rfl
  obtain ⟨bytes, packed, seven⟩ : ∃ bytes, (packLogged Graph.sample script).value = .ok bytes ∧
      (unpack bytes).toOption.map (·.nodes.length) = some 7 := by
    rw [known]
    refine ⟨(packLogged Graph.sample ((Job.compile ⟨Graph.sample, "sample", none⟩ 9).value.toOption.getD
      .dummy)).value.toOption.getD [], ?_, ?_⟩ <;> decide +kernel
  obtain ⟨layout', start, records, placed, addresses, -, -, read, -, length, -, addressed, ordered,
    each⟩ := @records_agree_with_blocks ⟨Graph.sample, "sample", none⟩ _ _ Graph.sample_accepted 9
      script script bytes compiled packed
  have count : records.length = 6 := by
    rw [read] at seven
    exact Nat.succ.inj (Option.some.inj seven)
  have same := congrArg List.length addressed
  rw [List.length_map, List.length_map] at same
  refine ⟨script, bytes, start, records, addresses, compiled, packed, read, count, by omega, ordered,
    fun index record address recorded at_index => ?_⟩
  have inside := (List.getElem?_eq_some_iff.mp recorded).1
  exact (each index _ record address (List.getElem?_eq_getElem (by omega)) recorded at_index).2.2

end Packed

end NodeScript
