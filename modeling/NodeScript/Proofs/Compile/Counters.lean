import NodeScript.Proofs.Compile.Order
import NodeScript.Proofs.Compile.Success
import NodeScript.Proofs.Execution.Loops

/-!
The counters of compiled units. Jumps are pointed at their targets while a unit is assembled, but
what an instruction reads and writes is settled when it is emitted. So up to targets the code is
that of the closed form, however many instructions there are; and in it no two nodes write one
global. A Repeat node alone writes its counter.
-/
namespace NodeScript

open Variable (table declareAll slotOf)

namespace Instruction

/-- The instruction without its target. -/
def unaimed (instruction : Instruction) : Instruction := instruction.aim 0

theorem unaimed_aim (target : Addr) (instruction : Instruction) :
    (instruction.aim target).unaimed = instruction.unaimed := by cases instruction <;> rfl

theorem writes?_unaimed (instruction : Instruction) :
    instruction.unaimed.writes? = instruction.writes? := by cases instruction <;> rfl

theorem eq_loop_of_unaimed {instruction : Instruction} {counter : Slot} {bound : UInt32}
    (same : instruction.unaimed = .loop counter bound 0) :
    ∃ exit, instruction = .loop counter bound exit := by
  cases instruction with
  | loop counter' bound' exit =>
    simp only [unaimed, aim, loop.injEq] at same
    obtain ⟨rfl, rfl, -⟩ := same
    exact ⟨exit, rfl⟩
  | _ => cases same

end Instruction

/-- Code up to the targets of its jumps. -/
abbrev unaimed (code : List Instruction) : List Instruction := code.map Instruction.unaimed

theorem unaimed_modify (code : List Instruction) (address : Nat) (target : Addr) :
    unaimed (code.modify address (Instruction.aim target)) = unaimed code := by
  apply List.ext_getElem?
  intro index
  rw [List.getElem?_map, List.getElem?_map, List.getElem?_modify]
  cases code[index]? with
  | none => rfl
  | some instruction =>
    by_cases here : address = index
    · simp [here, Instruction.unaimed_aim]
    · simp [here]

/-- Codes that are equal up to targets have, at each address, instructions that are. -/
theorem getElem?_unaimed {code : Array Instruction} {closed : List Instruction}
    (emitted : unaimed code.toList = unaimed closed) (pc : Nat) :
    code[pc]?.map Instruction.unaimed = closed[pc]?.map Instruction.unaimed := by
  simpa [unaimed] using congrArg (·[pc]?) emitted

theorem Node.unaimed_code (g : Graph) (vars : List Variable) (node : Node) (target other : Addr) :
    unaimed (node.code g vars target) = unaimed (node.code g vars other) := by
  unfold code operation
  cases node.kind <;> simp [Instruction.unaimed, Instruction.aim]

namespace Draft

variable {job : Job} {d : Draft} {vars fin : List Variable}

theorem unaimed_turned (job : Job) (d held : Draft) (node : Node) :
    unaimed (d.turned held job node).assembly.code.toList = unaimed held.assembly.code.toList := by
  rw [assembly_turned, Assembly.turnArms_eq]
  simp only [Assembly.patch, Array.toList_modify]
  exact unaimed_modify _ _ _

/-- What lowering a chain emits, wherever its jumps lead. -/
theorem Lowers.unaimed {chain : Chain} {e : Draft} (lowers : Lowers job fin chain d e)
    (address : Uuid → Nat) (base : Nat) :
    unaimed e.assembly.code.toList =
      unaimed d.assembly.code.toList ++ unaimed (chain.code job.graph fin address base) := by
  induction lowers generalizing base with
  | stop d => simp [Assembly.leave, Assembly.emit, Assembly.write, Chain.code]
  | jump found =>
    simp [Assembly.goto, found, Assembly.emit, Assembly.write, Chain.code, Instruction.unaimed,
      Instruction.aim]
  | @step d e vars node rest declared single asked behind ih =>
    have written := assembly_stepped job declared node single asked
    rw [ih (base + node.size job.graph), written]
    simp [Assembly.endBlock, Assembly.write, Chain.code]
  | @branch d held e vars node first second declared double asked arm other ihFirst ihSecond =>
    have written := assembly_entered job declared node double asked
    have head := node.unaimed_code job.graph fin 0
      (base + node.size job.graph + first.size job.graph).toUInt32
    simp only [NodeScript.unaimed] at head
    change NodeScript.unaimed e.assembly.code.toList = _
    rw [ihSecond (base + node.size job.graph + first.size job.graph), unaimed_turned,
      ihFirst (base + node.size job.graph), written]
    simp [Chain.code, head]

theorem LowersAll.unaimed {layout : Layout} {e : Draft} (lowers : LowersAll job fin layout d e)
    (address : Uuid → Nat) (base : Nat) :
    unaimed e.assembly.code.toList =
      unaimed d.assembly.code.toList ++ unaimed (layout.code job.graph fin address base) := by
  induction lowers generalizing base with
  | done d => simp [Layout.code]
  | @lead trigger chain rest d held e lowers others ih =>
    rw [ih (base + chain.size job.graph), lowers.unaimed address base, assembly_enterTrigger]
    simp [Assembly.writeLabel, Layout.code]

end Draft

theorem Node.writes?_bindings {slot : Nat} {constants : List Constant} {instruction : Instruction}
    (member : instruction ∈ bindings slot constants) : instruction.writes? = none := by
  induction constants generalizing slot with
  | nil => cases member
  | cons constant rest ih =>
    rcases List.mem_cons.mp member with rfl | later
    · rfl
    · exact ih later

/-- A node writes nothing but a variable that it asks for, and a counter only in the one instruction
of its loop. -/
theorem Node.writes?_code {g : Graph} {vars : List Variable} {target : Addr} {node : Node}
    {index : Nat} {instruction : Instruction} {slot : Slot}
    (found : (node.code g vars target)[index]? = some instruction)
    (writes : instruction.writes? = some slot) :
    ∃ v ∈ node.demands g, slot = slotOf vars v ∧
      ∀ uuid, v = .counter uuid → uuid = node.uuid ∧ index = 0 := by
  have member := List.mem_of_getElem? found
  rw [code, List.mem_append] at member
  rcases member with bound | performed
  · rw [writes?_bindings bound] at writes
    cases writes
  · unfold operation at performed
    cases kind : node.kind with
    | function name argument =>
      simp only [kind, List.mem_singleton] at performed
      subst performed
      refine ⟨.result node.uuid, by simp [demands, kind], (Option.some.inj writes).symm, ?_⟩
      intro uuid same
      cases same
    | loop count =>
      simp only [kind, List.mem_singleton] at performed
      subst performed
      have alone : (node.code g vars target).length = 1 := by
        simp [code, constants, operation, kind, bindings]
      have inside := (List.getElem?_eq_some_iff.mp found).1
      refine ⟨.counter node.uuid, by simp [demands, kind], (Option.some.inj writes).symm, ?_⟩
      intro uuid same
      exact ⟨(Variable.counter.inj same).symm, by omega⟩
    | wait | deleteObject | sendEvent | compare =>
      simp only [kind, List.mem_singleton] at performed
      subst performed
      cases writes
    | start | value => simp [kind] at performed

namespace Layout

variable {g : Graph} {after : List Uuid} {layout : Layout}

/-- An instruction of a unit is in the block of a placed node, or it ends a chain. -/
theorem code_cases (laid : Chain.LaysAll g Trigger.all [] layout after) {pc : Nat}
    {instruction : Instruction} (found : (layout.instructions g)[pc]? = some instruction) :
    (∃ node ∈ layout.nodes, ∃ index exit, pc = layout.address g node.uuid + index ∧
        index < node.size g ∧ (node.code g (layout.vars g) exit)[index]? = some instruction) ∨
      instruction = .finish ∨ ∃ target, instruction = .jump target := by
  have upper := (List.getElem?_eq_some_iff.mp found).1
  rw [instructions, length_code] at upper
  rcases covers laid (Placed.whole _) (address_place laid) (List.Subset.refl _) (Nat.zero_le pc)
    (by omega) with ⟨node, member, inside⟩ | finish | ⟨uuid, -, jump⟩
  · obtain ⟨exit, block⟩ :=
      blocks laid (Placed.whole _) (address_place laid) (List.Subset.refl _) node member
    obtain ⟨index, rfl⟩ := Nat.exists_eq_add_of_le inside.1
    have short : index < node.size g := Nat.lt_of_add_lt_add_left inside.2
    rw [instructions, block.block.getElem? (by rwa [Node.length_code])] at found
    exact .inl ⟨node, member, index, _, rfl, short, found⟩
  · exact .inr (.inl (Option.some.inj (found.symm.trans finish)))
  · exact .inr (.inr ⟨_, Option.some.inj (found.symm.trans jump)⟩)

/-- Only its own instruction writes the counter of a placed node. -/
theorem eq_of_writes (laid : Chain.LaysAll g Trigger.all [] layout after)
    (few : (layout.vars g).length ≤ 65535) {node : Node} (member : node ∈ layout.nodes)
    {count : UInt32} (kind : node.kind = .loop count) {pc : Nat} {instruction : Instruction}
    (found : (layout.instructions g)[pc]? = some instruction)
    (writes : instruction.writes? = some (slotOf (layout.vars g) (.counter node.uuid))) :
    pc = layout.address g node.uuid := by
  have asked : .counter node.uuid ∈ layout.vars g :=
    demands_subset member (by simp [Node.demands, kind])
  rcases code_cases laid found with
    ⟨other, member', index, exit, rfl, -, stands⟩ | rfl | ⟨target, rfl⟩
  · obtain ⟨v, asked', same, own⟩ := Node.writes?_code stands writes
    have equal := Variable.slotOf_injective (demands_subset member' asked') asked
      (Nat.le_succ_of_le few) same.symm
    obtain ⟨here, rfl⟩ := own node.uuid equal
    rw [here, Nat.add_zero]
  · cases writes
  · cases writes

/-- The loop of a placed node in a program that is the closed form up to targets. -/
theorem loop_in (laid : Chain.LaysAll g Trigger.all [] layout after)
    (few : (layout.vars g).length ≤ 65535) {p : Program}
    (emitted : unaimed p.code.toList = unaimed (layout.instructions g))
    (declared : p.globals = (table (layout.vars g)).map Declaration.global) {node : Node}
    (member : node ∈ layout.nodes) {count : UInt32} (kind : node.kind = .loop count) :
    ∃ exit, Loop.In
      ⟨layout.address g node.uuid, slotOf (layout.vars g) (.counter node.uuid), count, exit⟩ p := by
  have same := getElem?_unaimed emitted
  obtain ⟨target, block⟩ := block_of_mem laid (List.Subset.refl _) member
  have stands : (layout.instructions g)[layout.address g node.uuid]? =
      some (.loop (slotOf (layout.vars g) (.counter node.uuid)) count target.toUInt32) := by
    have only : node.code g (layout.vars g) target.toUInt32 =
        [.loop (slotOf (layout.vars g) (.counter node.uuid)) count target.toUInt32] := by
      simp [Node.code, Node.constants, Node.operation, kind, Node.bindings]
    have placed := block.block
    rw [only] at placed
    exact placed.head
  have aimed := same (layout.address g node.uuid)
  rw [stands, Option.map_some, Option.map_eq_some_iff] at aimed
  obtain ⟨instruction, found, equal⟩ := aimed
  obtain ⟨exit, rfl⟩ := Instruction.eq_loop_of_unaimed equal
  refine ⟨exit, found, ?_, ?_⟩
  · intro pc other found writes
    have counterpart := same pc
    rw [found, Option.map_some, eq_comm, Option.map_eq_some_iff] at counterpart
    obtain ⟨closed, found', equal'⟩ := counterpart
    apply eq_of_writes laid few member kind found'
    rw [← Instruction.writes?_unaimed, equal', Instruction.writes?_unaimed]
    exact writes
  · have asked : .counter node.uuid ∈ layout.vars g :=
      demands_subset member (by simp [Node.demands, kind])
    simp [declared, table, Variable.getElem?_slotOf asked (Nat.le_succ_of_le few),
      Variable.declaration]

end Layout

/-- What a script holds that was compiled, whatever addresses its code needs. -/
theorem Job.unaimed_of_compile {job : Job} (formed : job.graph.WellFormed) {uuid : Uuid}
    {script : Script} (compiled : (job.compile uuid).value = .ok script) :
    ∃ (layout : Layout) (after : List Uuid), Chain.ofGraph job.graph job.asset = .ok layout ∧
      Chain.LaysAll job.graph Trigger.all [] layout after ∧
      (layout.vars job.graph).length ≤ 65535 ∧
      unaimed script.program.code.toList = unaimed (layout.instructions job.graph) ∧
      script.program.globals = (table (layout.vars job.graph)).map Declaration.global := by
  obtain ⟨layout, after, success, laid, few, rfl⟩ := Job.laid_of_compile formed compiled
  obtain ⟨globals, -⟩ := Draft.lowerEntries_counts laid .empty .empty [] rfl rfl
  have lowers := Draft.lowersAll_lowerEntries laid .empty .empty [] rfl rfl List.prefix_rfl
  have emitted := lowers.unaimed (Layout.address job.graph layout) 0
  refine ⟨layout, after, success, laid, few, emitted, ?_⟩
  exact congrArg (Array.map Declaration.global) globals

/-- A variable is found under its name. -/
theorem Script.findIdx?_name {script : Script} {vars : List Variable}
    (declared : script.program.globals = (table vars).map Declaration.global) {v : Variable}
    (member : v ∈ vars) (few : vars.length ≤ 65536) :
    script.program.globals.findIdx? (fun global => global.name == v.name) =
      some (slotOf vars v).toNat := by
  have found := Variable.findIdx?_table vars v
  rw [if_pos member, ← Variable.slotOf_toNat member few] at found
  rw [declared, Array.findIdx?_map]
  exact found

/-- Where there are addresses for all of a unit, what a loop goes on to is what its outputs are
linked to. -/
theorem Job.loop_leads {job : Job} {uuid : Uuid} {script : Script}
    (compiled : (job.compile uuid).value = .ok script) {layout : Layout} {after : List Uuid}
    (success : Chain.ofGraph job.graph job.asset = .ok layout)
    (laid : Chain.LaysAll job.graph Trigger.all [] layout after)
    (few : (layout.vars job.graph).length ≤ 65535)
    (emitted : unaimed script.program.code.toList = unaimed (layout.instructions job.graph))
    (room : script.program.code.size < UInt32.size) {node : Node} (member : node ∈ layout.nodes)
    {count : UInt32} (kind : node.kind = .loop count) {counter : Slot} {exit : Addr}
    (found : script.program.code[layout.address job.graph node.uuid]? =
      some (.loop counter count exit)) :
    let leads := Leads script.program.code.toList (layout.address job.graph)
      (layout.nodes.map (·.uuid))
    leads (layout.address job.graph node.uuid + 1) (job.graph.successor? node.uuid 0) ∧
      leads exit.toNat (job.graph.successor? node.uuid 1) := by
  intro leads
  have size : script.program.code.size = layout.size job.graph := by
    have length := congrArg List.length emitted
    simpa [unaimed, Layout.instructions, Layout.length_code] using length
  have closed : layout.Closed job.graph after := ⟨laid, few, size ▸ room⟩
  obtain ⟨closed_script, compiled', program, -⟩ := Job.compile_closed success closed uuid
  obtain rfl := Except.ok.inj (compiled.symm.trans compiled')
  have whole : script.program.code.toList = layout.instructions job.graph := by rw [program]; rfl
  have within : after ⊆ layout.nodes.map (·.uuid) := by
    rw [laid.after_eq]
    simp [Layout.nodes]
  obtain ⟨target, block⟩ := Layout.block_of_mem laid within member
  have only (vars : List Variable) (target : Addr) : node.code job.graph vars target =
      [.loop (slotOf vars (.counter node.uuid)) count target] := by
    simp [Node.code, Node.constants, Node.operation, kind, Node.bindings]
  have one : node.size job.graph = 1 := by rw [Node.size, only]; rfl
  have double : node.type.branches = true := by rw [Node.type, kind]; rfl
  have stands := block.block
  rw [only] at stands
  obtain ⟨inside, fails⟩ := block.fails double
  rw [← Array.getElem?_toList, whole, stands.head] at found
  simp only [Option.some.injEq, Instruction.loop.injEq, true_and] at found
  obtain ⟨-, rfl⟩ := found
  have follows := block.follows
  rw [one] at follows
  simp only [leads, whole, closed.toNat_toUInt32 (Nat.le_of_lt inside)]
  exact ⟨follows, fails⟩

/-- The law of Repeat nodes. Of a script that was compiled, every Repeat node that is reached has a
counter of its own. From loading the script on, whatever updates and triggers there are, the counter
holds how often the node has been passed, modulo one more than its bound, at every instruction that
is run and after every request; and a pass takes the Exit output if the counter is at the bound, and
the Loop output otherwise. -/
theorem repeat_nodes_exit_every_round {nodes : List Node} {links : List Link} {g : Graph}
    (accepted : Graph.ofParts nodes links = .ok g) {asset : String} {functions : Option Registry}
    {uuid : Uuid} {script : Script}
    (compiled : (Job.compile ⟨g, asset, functions⟩ uuid).value = .ok script) {node : Node}
    (found : g.node? node.uuid = some node) (reached : g.Reaches g.start.uuid node.uuid)
    {count : UInt32} (kind : node.kind = .loop count) :
    ∃ (layout : Layout) (loop : Loop), Chain.ofGraph g asset = .ok layout ∧
      loop.In script.program ∧ loop.bound = count ∧
      loop.address = layout.address g node.uuid ∧
      (script.program.code.size < UInt32.size →
        let leads := Leads script.program.code.toList (layout.address g)
          (layout.nodes.map (·.uuid))
        leads (loop.address + 1) (g.successor? node.uuid 0) ∧
          leads loop.exit.toNat (g.successor? node.uuid 1)) ∧
      ∀ {τ : Type} [Elapsed τ] (i : Instance τ) (registry : Registry) (config : Config)
        (j : Journal) (operations : List (Operation τ)),
        (∀ operation ∈ operations, operation.config? = none) →
        let loaded := i.bind script registry config j
        let visits := Instance.visitedAll operations loaded.1 loaded.2
        loop.Obeyed 0 visits ∧
          ∃ value, (Instance.performAll operations loaded.1 loaded.2).1.global?
              (Draft.counterName node.uuid) = some value ∧
            value.toInt = (loop.passes visits % (count.toNat + 1) : Nat) := by
  have formed := Graph.wellFormed_of_ofParts accepted
  obtain ⟨layout, after, success, laid, few, emitted, declared⟩ :=
    Job.unaimed_of_compile formed compiled
  have other : node.type ≠ .start := by
    rw [Node.type, kind]
    intro same
    cases same
  have member := Layout.mem_of_reaches formed laid found other reached
  obtain ⟨exit, inside⟩ := Layout.loop_in laid few emitted declared member kind
  refine ⟨layout, _, success, inside, rfl, rfl, fun room => ?_, ?_⟩
  · exact Job.loop_leads compiled success laid few emitted room member kind inside.found
  · intro τ _ i registry config j operations keep loaded visits
    obtain ⟨obeyed, counted, stored⟩ := inside.law i registry config j operations keep
    have asked : .counter node.uuid ∈ layout.vars g :=
      Layout.demands_subset member (by simp [Node.demands, kind])
    have named := Script.findIdx?_name declared asked (Nat.le_succ_of_le few)
    refine ⟨obeyed, _, ?_, Int64.toInt_ofNat_of_lt ?_⟩
    · have name : Draft.counterName node.uuid = (Variable.counter node.uuid).name := rfl
      simp only [Instance.global?, loaded, stored, Option.bind_eq_bind, Option.bind_some]
      rw [name, named]
      exact counted
    · have word := count.toNat_lt
      exact Nat.lt_of_lt_of_le (Nat.mod_lt _ (Nat.succ_pos _)) (by omega)

/-- The sample graph, whose loop is around a pause. -/
theorem repeat_nodes_exit_every_round_sample :
    ∃ (script : Script) (loop : Loop),
      (Job.compile ⟨Graph.sample, "sample", none⟩ 9).value = .ok script ∧
      loop.In script.program ∧ loop.bound = 2 ∧
      ∀ (registry : Registry) (operations : List (Operation Millis)),
        (∀ operation ∈ operations, operation.config? = none) →
        let loaded := (Instance.new 7).bind script registry .standard .empty
        loop.Obeyed 0 (Instance.visitedAll operations loaded.1 loaded.2) := by
  have formed := Graph.wellFormed_of_ofParts Graph.sample_accepted
  obtain ⟨script, compiled⟩ :=
    @Job.compile_of_small ⟨Graph.sample, "sample", none⟩ formed (by decide) 9
  have reached : Graph.sample.Reaches Graph.sample.start.uuid 2 :=
    .single ⟨⟨1, .start, .origin⟩, by decide, by decide⟩
  obtain ⟨layout, loop, -, inside, bound, -, -, law⟩ :=
    @repeat_nodes_exit_every_round _ _ _ Graph.sample_accepted _ _ _ _ compiled
      ⟨2, .loop 2, .origin⟩ (by decide) reached 2 rfl
  refine ⟨_, loop, compiled, inside, bound, fun registry operations keep => ?_⟩
  exact (law (.new 7) registry .standard .empty operations keep).1

end NodeScript
