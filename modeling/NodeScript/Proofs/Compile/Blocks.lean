import NodeScript.Proofs.Compile.Emission

/-!
One node at a time: what an assembly holds once the block of a node has been written. Whatever the
node, its block adds the closed form of its code and of its lines, and the variables it asks for;
slots are already those of the finished unit.
-/
namespace NodeScript

open Variable (table declareAll slotOf spelling)

namespace Assembly

/-- Assemblies are compared by the lists that their arrays hold. -/
theorem ext_toList {a b : Assembly} (globals : a.globals = b.globals)
    (code : a.code.toList = b.code.toList) (lines : a.lines.toList = b.lines.toList)
    (indent : a.indent = b.indent) (locals : a.locals.toList = b.locals.toList)
    (maxLocals : a.maxLocals = b.maxLocals) (labels : a.labels = b.labels) : a = b := by
  cases a
  cases b
  simp_all [Array.toList_inj]

/-- The assembly with other globals. -/
def declaring (a : Assembly) (vars : List Variable) : Assembly := { a with globals := table vars }

theorem declaring_self {a : Assembly} {vars : List Variable} (declared : a.globals = table vars) :
    a.declaring vars = a := by
  rw [declaring, ← declared]

/-- The assembly after the constants of a block. -/
def bind (a : Assembly) (constants : List Constant) : Assembly :=
  { a with
    code := a.code ++ (Node.bindings a.locals.size constants).toArray
    lines := a.lines ++
      (constants.map fun c => .statement a.indent (.constant c.type c.name c.value)).toArray
    locals := a.locals ++ (constants.map (·.name)).toArray
    maxLocals := max a.maxLocals (a.locals.size + constants.length) }

theorem bind_nil {a : Assembly} (framed : a.locals.size ≤ a.maxLocals) : a.bind [] = a := by
  simp [bind, Node.bindings, Nat.max_eq_left framed]

theorem bind_bind (a : Assembly) (first second : List Constant) :
    (a.bind first).bind second = a.bind (first ++ second) := by
  simp only [bind, Assembly.mk.injEq, Node.bindings_append]
  simp [Nat.add_assoc]

theorem declareLocal_eq (a : Assembly) (type name : String) (value : Int64) :
    a.declareLocal type name value =
      (a.bind [⟨type, name, value⟩], .frame a.locals.size.toUInt16) := by
  simp only [declareLocal, Prod.mk.injEq, and_true]
  apply ext_toList <;> simp [bind, Node.bindings, write, emit]

/-- The head of a node's block. -/
def enter (a : Assembly) (g : Graph) (node : Node) : Assembly :=
  { a with
    lines := a.lines ++ (node.opening g a.indent).toArray
    indent := a.indent + 1
    locals := #[]
    labels := (node.uuid, a.here) :: a.labels }

/-- The assembly after what a node does, within its block or its first arm. -/
def perform (a : Assembly) (g : Graph) (vars fin : List Variable) (node : Node) : Assembly :=
  { (a.bind (node.constants g)).declaring (declareAll vars (node.demands g)) with
    code := (a.bind (node.constants g)).code ++ (node.operation g fin 0).toArray
    lines := (a.bind (node.constants g)).lines ++
      (node.statements g (spelling (declareAll vars (node.demands g)) fin) a.indent).toArray
    indent := a.indent + if node.type.branches then 1 else 0 }

/-- The assembly after the block of a node, up to its end or its first arm. -/
def block (a : Assembly) (g : Graph) (vars fin : List Variable) (node : Node) : Assembly :=
  (a.enter g node).perform g vars fin node

section

variable (a : Assembly) (g : Graph) (vars fin : List Variable) (node : Node)

@[simp] theorem globals_block :
    (a.block g vars fin node).globals = table (declareAll vars (node.demands g)) := rfl

@[simp] theorem code_block :
    (a.block g vars fin node).code.toList = a.code.toList ++ node.code g fin 0 := by
  simp [block, perform, bind, enter, Node.code]

@[simp] theorem size_block :
    (a.block g vars fin node).code.size = a.code.size + node.size g := by
  rw [← Array.length_toList, code_block, List.length_append, Node.length_code]
  rfl

@[simp] theorem lines_block :
    (a.block g vars fin node).lines.toList = a.lines.toList ++
      node.lines g (spelling (declareAll vars (node.demands g)) fin) a.indent := by
  simp [block, perform, bind, enter, Node.lines]

@[simp] theorem indent_block : (a.block g vars fin node).indent =
    a.indent + 1 + if node.type.branches then 1 else 0 := rfl

@[simp] theorem locals_block :
    (a.block g vars fin node).locals.size = (node.constants g).length := by
  simp [block, perform, bind, enter, declaring]

@[simp] theorem maxLocals_block : (a.block g vars fin node).maxLocals =
    max a.maxLocals (node.constants g).length := by
  simp [block, perform, bind, enter, declaring]

@[simp] theorem labels_block :
    (a.block g vars fin node).labels = (node.uuid, a.here) :: a.labels := rfl

end

end Assembly

namespace Draft

variable {job : Job} {d : Draft} {vars fin : List Variable}

@[simp] theorem assembly_report (event : Event) : (d.report event).assembly = d.assembly := rfl

@[simp] theorem failure_report (event : Event) : (d.report event).failure = d.failure := rfl

@[simp] theorem assembly_edit (change : Assembly → Assembly) :
    (d.edit change).assembly = change d.assembly := rfl

@[simp] theorem failure_edit (change : Assembly → Assembly) :
    (d.edit change).failure = d.failure := rfl

@[simp] theorem assembly_noteLinks (node : Uuid) (pin : UInt16) :
    (d.noteLinks job node pin).assembly = d.assembly := by
  unfold noteLinks
  split <;> rfl

@[simp] theorem failure_noteLinks (node : Uuid) (pin : UInt16) :
    (d.noteLinks job node pin).failure = d.failure := by
  unfold noteLinks
  split <;> rfl

@[simp] theorem assembly_noteName (node : Uuid) (name : String) :
    (d.noteName job node name).assembly = d.assembly := by
  unfold noteName
  split
  · split <;> rfl
  · rfl

@[simp] theorem failure_noteName (node : Uuid) (name : String) :
    (d.noteName job node name).failure = d.failure := by
  unfold noteName
  split
  · split <;> rfl
  · rfl

@[simp] theorem assembly_checkSlots (node : Uuid) :
    (d.checkSlots job node).assembly = d.assembly := by
  unfold checkSlots
  split
  · rfl
  · split <;> rfl

theorem checkSlots_eq (globals : d.assembly.globals.size ≤ slotLimit)
    (locals : d.assembly.locals.size ≤ slotLimit) (node : Uuid) : d.checkSlots job node = d := by
  unfold checkSlots
  rw [if_neg (Nat.not_lt.mpr globals), if_neg (Nat.not_lt.mpr locals)]

theorem openNode_assembly (node : Node) :
    (d.openNode job node).assembly = d.assembly.enter job.graph node := by
  rw [openNode, assembly_edit]
  by_cases joined : 1 < job.graph.logicInDegree node.uuid <;> apply Assembly.ext_toList <;>
    simp [joined, Assembly.enter, Node.opening, Assembly.bindLabel, Assembly.beginBlock,
      Assembly.write, Assembly.writeLabel, Assembly.here]

theorem bindConstant_eq (type name : String) (value : Int64) :
    d.bindConstant type name value =
      (d.edit (·.bind [⟨type, name, value⟩]), .frame d.assembly.locals.size.toUInt16) := by
  simp [bindConstant, Assembly.declareLocal_eq, edit]

theorem declareResult_eq (declared : d.assembly.globals = table vars) (node : Uuid)
    (longer : Variable.declare vars (.result node) <+: fin) :
    d.declareResult node = (d.edit (·.declaring (Variable.declare vars (.result node))),
      slotOf fin (.result node)) := by
  have spec : d.assembly.declareGlobal "int" (Assembly.nodeVariable "res" node) .number 0 none =
      _ := Variable.declareGlobal_eq declared (.result node) longer none rfl
  simp only [declareResult, spec]
  rfl

/-! Value inputs -/

variable (job) in
theorem resolveInput_spec (declared : d.assembly.globals = table vars) (node : Uuid)
    (pin : UInt16) (longer : declareAll vars (job.graph.input node pin).demands <+: fin) :
    (d.resolveInput job node pin).1.assembly =
        d.assembly.declaring (declareAll vars (job.graph.input node pin).demands) ∧
      (d.resolveInput job node pin).1.failure = d.failure ∧
      (d.resolveInput job node pin).2 = (job.graph.input node pin).source fin := by
  have same := Assembly.declaring_self declared
  unfold resolveInput
  unfold Graph.input at longer ⊢
  cases linked : job.graph.linkInto? node pin with
  | none => simp [Input.demands, Input.source, same]
  | some link =>
    cases found : job.graph.node? link.fromNode with
    | none => simp [found, Input.demands, Input.source, same]
    | some source =>
      cases kind : source.kind with
      | function name argument =>
        by_cases second : link.fromPin = 1
        · have spec := declareResult_eq declared link.fromNode
            (by simpa [linked, found, kind, second, Input.demands] using longer)
          simp [found, kind, second, NodeKind.type, Input.demands, Input.source, spec]
        · simp [found, kind, second, Input.demands, Input.source, same]
      | _ => simp [found, kind, NodeKind.type, Input.demands, Input.source, same]

/-- The two inputs of a comparison. -/
theorem resolveInputs_spec (declared : d.assembly.globals = table vars) (node : Uuid)
    (a b : UInt16)
    (longer : declareAll vars ((job.graph.input node a).demands ++
      (job.graph.input node b).demands) <+: fin) :
    (d.resolveInputs job node [a, b]).1.assembly =
        d.assembly.declaring (declareAll vars ((job.graph.input node a).demands ++
          (job.graph.input node b).demands)) ∧
      (d.resolveInputs job node [a, b]).1.failure = d.failure ∧
      (d.resolveInputs job node [a, b]).2 =
        [(job.graph.input node a).source fin, (job.graph.input node b).source fin] := by
  rw [Variable.declareAll_append] at longer ⊢
  obtain ⟨firstAssembly, firstFailure, firstOperand⟩ := resolveInput_spec job declared
    node a ((Variable.prefix_declareAll _ _).trans longer)
  have declared' : (d.resolveInput job node a).1.assembly.globals =
      table (declareAll vars (job.graph.input node a).demands) := by
    rw [firstAssembly]
    rfl
  obtain ⟨secondAssembly, secondFailure, secondOperand⟩ :=
    resolveInput_spec job declared' node b longer
  refine ⟨?_, secondFailure.trans firstFailure, ?_⟩
  · simp only [resolveInputs, secondAssembly, firstAssembly]
    rfl
  · simp only [resolveInputs, firstOperand, secondOperand]

/-! What a node does -/

theorem materialize_eq (framed : d.assembly.locals.size ≤ d.assembly.maxLocals) (input : Input)
    (name : String) :
    d.materialize (input.source fin) name =
      (d.edit (·.bind (input.constants name)), input.operand fin d.assembly.locals.size) := by
  cases input with
  | constant value => exact bindConstant_eq "int32_t" name value
  | result node =>
    simp [materialize, Input.source, Input.constants, Input.operand, edit,
      Assembly.bind_nil framed]

theorem lowerCall_spec (declared : d.assembly.globals = table vars)
    (cleared : d.assembly.locals = #[]) (node : Node) {name : String} {argument : UInt32}
    (kind : node.kind = .function name argument)
    (longer : declareAll vars (node.demands job.graph) <+: fin) :
    (d.lowerCall job node.uuid name argument).assembly =
        d.assembly.perform job.graph vars fin node ∧
      (d.lowerCall job node.uuid name argument).failure = d.failure := by
  obtain ⟨uuid, kind', position⟩ := node
  obtain rfl : kind' = .function name argument := kind
  let function : Variable := .function (crc32 name)
  let result : Variable := .result uuid
  have longer' : declareAll vars [function, result] <+: fin := longer
  have first : d.assembly.declareGlobal "UserFunc" ("fn_" ++ hex32 (crc32 name))
      (.function (crc32 name)) 0 (some ("get_function(0x" ++ hex32 (crc32 name) ++ ")")) =
        (d.assembly.declaring (Variable.declare vars function), slotOf fin function) :=
    Variable.declareGlobal_eq declared function ((Variable.prefix_declare _ _).trans longer') _ rfl
  have second : ∀ events, declareResult
      ⟨d.assembly.declaring (Variable.declare vars function), events, d.failure⟩ uuid =
        (⟨d.assembly.declaring (declareAll vars [function, result]), events, d.failure⟩,
          slotOf fin result) :=
    fun events => declareResult_eq rfl uuid longer'
  simp only [lowerCall, first, second, bindConstant_eq, assembly_noteName, failure_noteName,
    assembly_edit, failure_edit, and_true]
  apply Assembly.ext_toList
  all_goals
    simp [Assembly.perform, Assembly.bind, Assembly.declaring, Assembly.write, Assembly.emit,
      Assembly.operandText, Node.bindings, Node.constants, Node.demands, Node.operation,
      Node.statements, Node.type, NodeKind.type, NodeType.branches, cleared, function, result]
  case lines =>
    exact ⟨Variable.globalText_slotOf rfl fin result, Variable.globalText_slotOf rfl fin function⟩

theorem lowerStep_spec (declared : d.assembly.globals = table vars)
    (cleared : d.assembly.locals = #[]) (node : Node) (single : node.type.branches = false)
    (longer : declareAll vars (node.demands job.graph) <+: fin) :
    (d.lowerStep job node).assembly = d.assembly.perform job.graph vars fin node ∧
      (d.lowerStep job node).failure = d.failure := by
  obtain ⟨uuid, kind, position⟩ := node
  cases kind with
  | compare | loop => cases single
  | function name argument =>
    exact lowerCall_spec declared cleared ⟨uuid, .function name argument, position⟩ rfl longer
  | _ =>
    simp only [lowerStep, lowerWait, lowerDelete, lowerSend, bindConstant_eq, assembly_edit,
      failure_edit, and_true]
    apply Assembly.ext_toList <;>
      simp [Assembly.perform, Assembly.bind, Assembly.declaring, Assembly.write, Assembly.emit,
        Assembly.operandText, Node.bindings, Node.constants, Node.demands, Node.operation,
        Node.statements, Node.type, NodeKind.type, NodeType.branches, cleared, declared,
        pauseLength]

/-- The operand of a copied input, in source. The copy is in the frame, or there is none. -/
theorem operandText_operand {a : Assembly} {input : Input} {name : String} {slot : Nat}
    (declared : a.globals = table vars)
    (copied : ∀ value, input = .constant value → a.locals[slot.toUInt16.toNat]? = some name) :
    a.operandText (input.operand fin slot) = input.text (spelling vars fin) name := by
  cases input with
  | constant value =>
    rw [Input.operand, Input.text, Assembly.operandText, copied value rfl]
    rfl
  | result node => exact Variable.globalText_slotOf declared fin _

/-- The comparison, once its inputs have been resolved. -/
theorem lowerCompare_spec (node : Node) {op : CompareOp} (kind : node.kind = .compare op)
    (declared : d.assembly.globals = table (declareAll vars (node.demands job.graph)))
    (cleared : d.assembly.locals = #[]) (fin : List Variable) :
    (d.lowerCompare op [(job.graph.input node.uuid 1).source fin,
        (job.graph.input node.uuid 2).source fin]).assembly =
      d.assembly.perform job.graph vars fin node ∧
    (d.lowerCompare op [(job.graph.input node.uuid 1).source fin,
        (job.graph.input node.uuid 2).source fin]).failure = d.failure := by
  obtain ⟨uuid, kind', position⟩ := node
  obtain rfl : kind' = .compare op := kind
  let first := job.graph.input uuid 1
  let second := job.graph.input uuid 2
  let constants := first.constants "t_a" ++ second.constants "t_b"
  let spell := spelling (declareAll vars (first.demands ++ second.demands)) fin
  have lhs : (d.assembly.bind constants).operandText (first.operand fin 0) =
      first.text spell "t_a" := by
    refine operandText_operand declared fun value constant => ?_
    simp [Assembly.bind, cleared, constants, constant, Input.constants]
  have rhs : (d.assembly.bind constants).operandText
      (second.operand fin (first.constants "t_a").length) = second.text spell "t_b" := by
    refine operandText_operand declared fun value constant => ?_
    cases other : first <;> simp [Assembly.bind, cleared, constants, constant, other,
      Input.constants]
  have copied : ∀ name, d.materialize (first.source fin) name =
      (d.edit (·.bind (first.constants name)), first.operand fin 0) := by
    intro name
    rw [materialize_eq (by simp [cleared]), cleared]
    rfl
  have copied' : ∀ name,
      (d.edit (·.bind (first.constants "t_a"))).materialize (second.source fin) name =
        (d.edit fun a => (a.bind (first.constants "t_a")).bind (second.constants name),
          second.operand fin (first.constants "t_a").length) := by
    intro name
    have framed : (d.assembly.bind (first.constants "t_a")).locals.size ≤
        (d.assembly.bind (first.constants "t_a")).maxLocals := by
      simp only [Assembly.bind, Array.size_append, List.size_toArray, List.length_map]
      exact Nat.le_max_right _ _
    rw [materialize_eq framed]
    simp [edit, Assembly.bind, cleared]
  have lowered : d.lowerCompare op [first.source fin, second.source fin] =
      d.edit fun _ => ((d.assembly.bind constants).emit (.jumpUnless op (first.operand fin 0)
        (second.operand fin (first.constants "t_a").length) 0)).openGroup
          (.ifCompare (first.text spell "t_a") op (second.text spell "t_b")) := by
    have texts := congrArg₂ (fun lhs rhs => Statement.ifCompare lhs op rhs) lhs rhs
    unfold lowerCompare
    simp only [List.getElem?_cons_zero, List.getElem?_cons_succ, Option.getD_some, copied, copied']
    simp only [edit, Assembly.bind_bind]
    exact congrArg (fun statement => Draft.mk ((Assembly.emit _ _).openGroup statement) _ _) texts
  rw [lowered]
  refine ⟨?_, rfl⟩
  rw [assembly_edit]
  apply Assembly.ext_toList <;>
    simp [Assembly.perform, Assembly.bind, Assembly.declaring, Assembly.write, Assembly.emit,
      Assembly.openGroup, Node.constants, Node.operation, Node.statements, Node.type,
      Node.demands, NodeKind.type, NodeType.branches, cleared, declared, constants, first, second,
      spell]

theorem lowerLoop_spec (declared : d.assembly.globals = table vars)
    (cleared : d.assembly.locals = #[]) (node : Node) {count : UInt32}
    (kind : node.kind = .loop count) (longer : declareAll vars (node.demands job.graph) <+: fin)
    :
    (d.lowerLoop node.uuid count).1.assembly = d.assembly.perform job.graph vars fin node ∧
      (d.lowerLoop node.uuid count).1.failure = d.failure ∧
      some (d.lowerLoop node.uuid count).2 =
        node.prelude (spelling (declareAll vars (node.demands job.graph)) fin) := by
  obtain ⟨uuid, kind', position⟩ := node
  obtain rfl : kind' = .loop count := kind
  let counter : Variable := .counter uuid
  have longer' : Variable.declare vars counter <+: fin := longer
  have slot : d.assembly.declareGlobal "uint32_t" (counterName uuid) .counter 0 none =
      (d.assembly.declaring (Variable.declare vars counter), slotOf fin counter) :=
    Variable.declareGlobal_eq declared counter longer' none rfl
  simp only [lowerLoop, slot, Variable.globalText_slotOf (a := d.assembly.declaring _) rfl]
  refine ⟨?_, trivial, rfl⟩
  apply Assembly.ext_toList <;>
    simp [Assembly.perform, Assembly.bind, Assembly.declaring, Assembly.write, Assembly.emit,
      Assembly.openGroup, Node.bindings, Node.constants, Node.demands, Node.operation,
      Node.statements, Node.type, NodeKind.type, NodeType.branches, cleared, counter]

variable (job) in
/-- The block of a node with one way out, up to its end. -/
theorem step_spec (declared : d.assembly.globals = table vars) (node : Node)
    (single : node.type.branches = false)
    (longer : declareAll vars (node.demands job.graph) <+: fin) :
    let opened := ((d.resolveInputs job node.uuid node.type.valueInputs).1).openNode job node
    (opened.lowerStep job node).assembly = d.assembly.block job.graph vars fin node ∧
      (opened.lowerStep job node).failure = d.failure := by
  have inputs : node.type.valueInputs = [] := by
    cases type : node.type <;> simp_all [NodeType.branches] <;> rfl
  intro opened
  have entered : opened.assembly = d.assembly.enter job.graph node := by
    simp only [opened, inputs, resolveInputs, openNode_assembly]
  have spec := lowerStep_spec (d := opened) (by rw [entered]; exact declared)
    (by rw [entered]; rfl) node single longer
  rw [entered] at spec
  refine ⟨spec.1, spec.2.trans ?_⟩
  simp only [opened, inputs, resolveInputs]
  rfl

variable (job) in
/-- The block of a branching node, up to its first arm. -/
theorem head_spec (declared : d.assembly.globals = table vars) (node : Node)
    (double : node.type.branches = true)
    (longer : declareAll vars (node.demands job.graph) <+: fin) :
    let inputs := d.resolveInputs job node.uuid node.type.valueInputs
    let head := (inputs.1.openNode job node).lowerHead node inputs.2
    head.1.assembly = d.assembly.block job.graph vars fin node ∧
      head.1.failure = d.failure ∧ head.2 =
        node.prelude (spelling (declareAll vars (node.demands job.graph)) fin) := by
  intro inputs head
  cases kind : node.kind with
  | compare op =>
    have pins : node.type.valueInputs = [1, 2] := by rw [Node.type, kind]; rfl
    have asked : node.demands job.graph = (job.graph.input node.uuid 1).demands ++
        (job.graph.input node.uuid 2).demands := by rw [Node.demands, kind]
    obtain ⟨resolved, same, operands⟩ :=
      resolveInputs_spec declared node.uuid 1 2 (asked ▸ longer)
    rw [← pins] at resolved same operands
    rw [← asked] at resolved
    have entered : (inputs.1.openNode job node).assembly =
        (d.assembly.declaring (declareAll vars (node.demands job.graph))).enter job.graph node := by
      rw [openNode_assembly, resolved]
    have spec := lowerCompare_spec (d := inputs.1.openNode job node) node kind
      (by rw [entered]; rfl) (by rw [entered]; rfl) fin
    simp only [head, lowerHead, kind, inputs, operands]
    refine ⟨spec.1.trans ?_, spec.2.trans same, by simp [Node.prelude, kind]⟩
    rw [entered]
    rfl
  | loop count =>
    have pins : node.type.valueInputs = [] := by rw [Node.type, kind]; rfl
    have entered : (inputs.1.openNode job node).assembly = d.assembly.enter job.graph node := by
      simp only [inputs, pins, resolveInputs, openNode_assembly]
    have spec := lowerLoop_spec (d := inputs.1.openNode job node) (by rw [entered]; exact declared)
      (by rw [entered]; rfl) node kind longer
    rw [entered] at spec
    simp only [head, lowerHead, kind]
    refine ⟨spec.1, spec.2.1.trans ?_, spec.2.2⟩
    simp only [inputs, pins, resolveInputs]
    rfl
  | _ => simp [Node.type, kind, NodeKind.type, NodeType.branches] at double

end Draft

end NodeScript
