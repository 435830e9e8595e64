import NodeScript.Proofs.Compile.Blocks

/-!
Lowering gives the closed form. One induction on how a chain is laid out shows that everything is
there when the chain has been lowered: jumps that were emitted empty have their targets, labels and
slots agree with those of the finished unit, and no slot overflow has been noted.
-/
namespace NodeScript

open Variable (table declareAll spelling)

/-- The label of a placed node. -/
def labelAt (address : Uuid → Nat) (uuid : Uuid) : Uuid × Addr := (uuid, (address uuid).toUInt32)

theorem keys_labelAt (address : Uuid → Nat) (placed : List Uuid) :
    (placed.map (labelAt address)).map Prod.fst = placed := by
  simp [labelAt, Function.comp_def]

namespace Assembly

theorem addressOf?_placed {a : Assembly} {address : Uuid → Nat} {placed : List Uuid}
    (labelled : a.labels = placed.map (labelAt address)) {uuid : Uuid} (seen : uuid ∈ placed) :
    a.addressOf? uuid = some (address uuid).toUInt32 := by
  rw [addressOf?, labelled, List.find?_map, Option.map_map]
  have found : placed.find? (fun other => other == uuid) = some uuid := by
    obtain ⟨other, found⟩ := Option.isSome_iff_exists.mp
      (List.find?_isSome (p := fun other => other == uuid) |>.mpr ⟨uuid, seen, by simp⟩)
    have same : other = uuid := by simpa using List.find?_some found
    rw [found, same]
  change Option.map _ (placed.find? fun other => other == uuid) = _
  rw [found]
  rfl

theorem addressOf?_known {a : Assembly} {placed : List Uuid} (known : a.labels.map Prod.fst = placed)
    {uuid : Uuid} (seen : uuid ∈ placed) : ∃ address, a.addressOf? uuid = some address := by
  rw [← known] at seen
  obtain ⟨entry, member, rfl⟩ := List.mem_map.mp seen
  rw [addressOf?, ← Option.isSome_iff_exists, Option.isSome_map, List.find?_isSome]
  exact ⟨entry, member, beq_self_eq_true _⟩

private theorem modify_at_length {α : Type} (before later : List α) (a : α) (change : α → α) :
    (before ++ a :: later).modify before.length change = before ++ change a :: later := by
  induction before with
  | nil => rfl
  | cons first rest ih => exact congrArg (first :: ·) ih

/-- The jump that the head of a branching node ends with gets its target. -/
theorem patch_head {a : Assembly} {g : Graph} {fin : List Variable} {node : Node}
    {before later : List Instruction} (double : node.type.branches = true)
    (emitted : a.code.toList = before ++ (node.code g fin 0 ++ later)) {head : Addr}
    (here : head.toNat + 1 = before.length + node.size g) (target : Addr) :
    (a.patch head target).code.toList = before ++ (node.code g fin target ++ later) := by
  have last : ∃ jump : Addr → Instruction,
      (∀ target, node.operation g fin target = [jump target]) ∧
      (jump 0).aim target = jump target := by
    unfold Node.operation
    cases kind : node.kind with
    | compare op => exact ⟨_, fun _ => rfl, rfl⟩
    | loop count => exact ⟨_, fun _ => rfl, rfl⟩
    | _ => simp [Node.type, kind, NodeKind.type, NodeType.branches] at double
  obtain ⟨jump, operation, patched⟩ := last
  have length := Node.size_of_operation g (operation 0)
  have position : head.toNat = (before ++ Node.bindings 0 (node.constants g)).length := by
    rw [List.length_append, Node.length_bindings]
    omega
  simp only [Node.code, operation] at emitted ⊢
  simp only [patch, Array.toList_modify, emitted, position]
  have aimed := modify_at_length (before ++ Node.bindings 0 (node.constants g)) later (jump 0)
    (Instruction.aim target)
  simpa [patched] using aimed

/-- The address before the next one. -/
theorem toNat_here_sub_one (a : Assembly) (some : 0 < a.code.size)
    (room : a.code.size < UInt32.size) : (a.here - 1).toNat + 1 = a.code.size := by
  have here : a.here.toNat = a.code.size := UInt32.toNat_ofNat_of_lt' room
  have one : (1 : UInt32).toNat = 1 := rfl
  rw [UInt32.toNat_sub_of_le _ _ (UInt32.le_iff_toNat_le.mpr (by omega)), here, one]
  omega

theorem turnArms_eq (a : Assembly) (head : Addr) (prelude : Option Statement) :
    a.turnArms head prelude = { a.patch head a.here with
      lines := a.lines ++ (Line.statement (a.indent - 1) .orElse ::
        prelude.toList.map (Line.statement (a.indent - 1 + 1))).toArray
      indent := a.indent - 1 + 1 } := by
  cases prelude <;>
    apply ext_toList <;> simp [turnArms, turnGroup, closeGroup, write, patch]

end Assembly

/-- A node's lines are spelled as in the finished unit. -/
theorem Node.lines_text {g : Graph} {vars fin : List Variable} (node : Node)
    (longer : declareAll vars (node.demands g) <+: fin) (few : fin.length ≤ 65536) (indent : Nat) :
    node.lines g (spelling (declareAll vars (node.demands g)) fin) indent =
        node.lines g Variable.text indent ∧
      node.prelude (spelling (declareAll vars (node.demands g)) fin) =
        node.prelude Variable.text :=
  node.lines_congr g (fun _ member =>
    Variable.spelling_eq_text (Variable.mem_declareAll member) longer few) indent

/-- What lowering a chain writes, whatever addresses its code gets. -/
structure Written (job : Job) (chain : Chain) (d e : Draft) : Prop where
  lines : e.assembly.lines.toList =
    d.assembly.lines.toList ++ chain.lines job.graph d.assembly.indent
  indent : e.assembly.indent = d.assembly.indent

/-- What lowering a chain adds to a draft. -/
structure Lowered (job : Job) (vars fin : List Variable) (address : Uuid → Nat)
    (after : List Uuid) (chain : Chain) (d e : Draft) : Prop where
  globals : e.assembly.globals = table (declareAll vars (chain.demands job.graph))
  code : e.assembly.code.toList =
    d.assembly.code.toList ++ chain.code job.graph fin address d.assembly.code.size
  lines : e.assembly.lines.toList =
    d.assembly.lines.toList ++ chain.lines job.graph d.assembly.indent
  indent : e.assembly.indent = d.assembly.indent
  maxLocals : e.assembly.maxLocals = max d.assembly.maxLocals (chain.frame job.graph)
  labels : e.assembly.labels = after.map (labelAt address)
  failure : e.failure = d.failure

namespace Draft

variable {job : Job} {d : Draft} {a : Assembly} {vars fin : List Variable}
  {address : Uuid → Nat}

/-- A node binds fewer constants than there are slots, so only globals can run out. -/
theorem checkSlots_block (node : Node) (written : d.assembly = a.block job.graph vars fin node)
    (longer : declareAll vars (node.demands job.graph) <+: fin) (few : fin.length ≤ slotLimit) :
    d.checkSlots job node.uuid = d := by
  have constants := node.length_constants_le job.graph
  have globals := Nat.le_trans longer.length_le few
  apply checkSlots_eq
  · simpa [written, table] using globals
  · simp only [written, Assembly.locals_block, slotLimit]
    omega

/-- The draft behind the block of a node with one way out. -/
def stepped (d : Draft) (job : Job) (node : Node) : Draft :=
  ((((((d.resolveInputs job node.uuid node.type.valueInputs).1).openNode job node).lowerStep job
    node).checkSlots job node.uuid).edit Assembly.endBlock).noteLinks job node.uuid 0

/-- The draft behind the head of a branching node, with the statement that opens the second arm. -/
def headed (d : Draft) (job : Job) (node : Node) : Draft × Option Statement :=
  let inputs := d.resolveInputs job node.uuid node.type.valueInputs
  (inputs.1.openNode job node).lowerHead node inputs.2

/-- The draft in which the first arm of a branching node is lowered. -/
def entered (d : Draft) (job : Job) (node : Node) : Draft :=
  ((d.headed job node).1.checkSlots job node.uuid).noteLinks job node.uuid 0

/-- The draft in which the second arm is lowered, when `held` is the draft behind the first. -/
def turned (d held : Draft) (job : Job) (node : Node) : Draft :=
  (held.edit fun a =>
    a.turnArms ((d.headed job node).1.assembly.here - 1) (d.headed job node).2).noteLinks job
      node.uuid 1

theorem assembly_turned (job : Job) (d held : Draft) (node : Node) :
    (d.turned held job node).assembly =
      held.assembly.turnArms ((d.headed job node).1.assembly.here - 1) (d.headed job node).2 :=
  assembly_noteLinks _ _

@[simp] theorem globals_turned (job : Job) (d held : Draft) (node : Node) :
    (d.turned held job node).assembly.globals = held.assembly.globals := by
  rw [assembly_turned, Assembly.turnArms_eq]
  rfl

@[simp] theorem labels_turned (job : Job) (d held : Draft) (node : Node) :
    (d.turned held job node).assembly.labels = held.assembly.labels := by
  rw [assembly_turned, Assembly.turnArms_eq]
  rfl

@[simp] theorem size_turned (job : Job) (d held : Draft) (node : Node) :
    (d.turned held job node).assembly.code.size = held.assembly.code.size := by
  rw [assembly_turned, Assembly.turnArms_eq]
  exact Array.size_modify

theorem lowerChain_step (d : Draft) (node : Node) (rest : Chain) :
    lowerChain job (.step node rest) d = lowerChain job rest (d.stepped job node) := rfl

theorem lowerChain_branch (d : Draft) (node : Node) (first second : Chain) :
    lowerChain job (.branch node first second) d =
      (lowerChain job second (d.turned (lowerChain job first (d.entered job node)) job node)).edit
        fun a => (a.closeGroup .closeBlock).endBlock := rfl

theorem assembly_stepped (job : Job) (declared : d.assembly.globals = table vars) (node : Node)
    (single : node.type.branches = false)
    (longer : declareAll vars (node.demands job.graph) <+: fin) :
    (d.stepped job node).assembly = (d.assembly.block job.graph vars fin node).endBlock := by
  obtain ⟨block, -⟩ := step_spec job declared node single longer
  simp only [stepped, assembly_noteLinks, assembly_edit, assembly_checkSlots, block]

theorem failure_stepped (job : Job) (declared : d.assembly.globals = table vars) (node : Node)
    (single : node.type.branches = false)
    (longer : declareAll vars (node.demands job.graph) <+: fin) (few : fin.length ≤ slotLimit) :
    (d.stepped job node).failure = d.failure := by
  obtain ⟨block, quiet⟩ := step_spec job declared node single longer
  rw [stepped, checkSlots_block node block longer few, failure_noteLinks, failure_edit, quiet]

theorem assembly_entered (job : Job) (declared : d.assembly.globals = table vars) (node : Node)
    (double : node.type.branches = true)
    (longer : declareAll vars (node.demands job.graph) <+: fin) :
    (d.entered job node).assembly = d.assembly.block job.graph vars fin node := by
  obtain ⟨block, -⟩ := head_spec job declared node double longer
  simp only [entered, assembly_noteLinks, assembly_checkSlots]
  exact block

theorem failure_entered (job : Job) (declared : d.assembly.globals = table vars) (node : Node)
    (double : node.type.branches = true)
    (longer : declareAll vars (node.demands job.graph) <+: fin) (few : fin.length ≤ slotLimit) :
    (d.entered job node).failure = d.failure := by
  obtain ⟨block, quiet, -⟩ := head_spec job declared node double longer
  rw [entered, headed, checkSlots_block node block longer few, failure_noteLinks]
  exact quiet

/-- What lowering a chain adds in number, however many slots there are. -/
theorem lowerChain_counts {placed after : List Uuid} {target : Option Uuid} {chain : Chain}
    (laid : Chain.Lays job.graph placed target chain after) (d : Draft) (vars : List Variable)
    (declared : d.assembly.globals = table vars) (known : d.assembly.labels.map Prod.fst = placed) :
    (lowerChain job chain d).assembly.globals =
        table (declareAll vars (chain.demands job.graph)) ∧
      (lowerChain job chain d).assembly.code.size =
        d.assembly.code.size + chain.size job.graph ∧
      (lowerChain job chain d).assembly.labels.map Prod.fst = after := by
  induction laid generalizing d vars with
  | stop placed =>
    simp [lowerChain, Assembly.leave, Assembly.emit, Assembly.write, declared, known,
      Chain.demands, Chain.size]
  | @jump placed uuid seen =>
    obtain ⟨address, found⟩ := Assembly.addressOf?_known known seen
    simp [lowerChain, Assembly.goto, found, Assembly.emit, Assembly.write, declared, known,
      Chain.demands, Chain.size]
  | @step placed after uuid node rest fresh found entered single next ih =>
    obtain ⟨-, rfl⟩ := Graph.node?_eq_some found
    have written := assembly_stepped job declared node single List.prefix_rfl
    obtain ⟨globals, size, labels⟩ :=
      ih (d.stepped job node) (declareAll vars (node.demands job.graph)) (by rw [written]; rfl)
        (by simp [written, Assembly.endBlock, Assembly.write, known])
    rw [lowerChain_step]
    refine ⟨globals.trans ?_, size.trans ?_, labels⟩
    · simp only [Chain.demands, Variable.declareAll_append]
    · simp [written, Assembly.endBlock, Assembly.write, Chain.size, Nat.add_assoc]
  | @branch placed middle after uuid node first second fresh found entered double holds fails
      ihFirst ihSecond =>
    obtain ⟨-, rfl⟩ := Graph.node?_eq_some found
    have written := assembly_entered job declared node double List.prefix_rfl
    obtain ⟨heldGlobals, heldSize, heldLabels⟩ :=
      ihFirst (d.entered job node) (declareAll vars (node.demands job.graph))
        (by rw [written]; rfl) (by simp [written, known])
    obtain ⟨globals, size, labels⟩ :=
      ihSecond (d.turned (lowerChain job first (d.entered job node)) job node)
        (declareAll (declareAll vars (node.demands job.graph)) (first.demands job.graph))
        (by rw [globals_turned, heldGlobals]) (by rw [labels_turned, heldLabels])
    rw [lowerChain_branch, assembly_edit]
    refine ⟨globals.trans ?_, size.trans ?_, labels⟩
    · simp only [Chain.demands, Variable.declareAll_append]
    · simp [heldSize, written, Chain.size, Nat.add_assoc]

/-- What lowering does with a chain, a rule for each construct. Before each block the globals are
those of the variables declared by then, and the slots that the block asks for are those of the
finished unit, whose variables are `fin`. -/
inductive Lowers (job : Job) (fin : List Variable) : Chain → Draft → Draft → Prop
  | stop (d : Draft) : Lowers job fin .stop d (d.edit Assembly.leave)
  | jump {d : Draft} {uuid : Uuid} {address : Addr}
      (found : d.assembly.addressOf? uuid = some address) :
      Lowers job fin (.jump uuid) d (d.edit fun a => a.goto uuid)
  | step {d e : Draft} {vars : List Variable} {node : Node} {rest : Chain}
      (declared : d.assembly.globals = table vars) (single : node.type.branches = false)
      (asked : declareAll vars (node.demands job.graph) <+: fin)
      (behind : Lowers job fin rest (d.stepped job node) e) : Lowers job fin (.step node rest) d e
  | branch {d held e : Draft} {vars : List Variable} {node : Node} {first second : Chain}
      (declared : d.assembly.globals = table vars) (double : node.type.branches = true)
      (asked : declareAll vars (node.demands job.graph) <+: fin)
      (arm : Lowers job fin first (d.entered job node) held)
      (other : Lowers job fin second (d.turned held job node) e) :
      Lowers job fin (.branch node first second) d
        (e.edit fun a => (a.closeGroup .closeBlock).endBlock)

/-- The rules say what lowering a chain does that has been laid out. -/
theorem lowers_lowerChain {placed after : List Uuid} {target : Option Uuid} {chain : Chain}
    (laid : Chain.Lays job.graph placed target chain after) (d : Draft) (vars : List Variable)
    (declared : d.assembly.globals = table vars) (known : d.assembly.labels.map Prod.fst = placed)
    (longer : declareAll vars (chain.demands job.graph) <+: fin) :
    Lowers job fin chain d (lowerChain job chain d) := by
  induction laid generalizing d vars with
  | stop placed => exact .stop d
  | jump seen =>
    obtain ⟨address, found⟩ := Assembly.addressOf?_known known seen
    exact .jump found
  | @step placed after uuid node rest fresh found entered single next ih =>
    obtain ⟨-, rfl⟩ := Graph.node?_eq_some found
    simp only [Chain.demands, Variable.declareAll_append] at longer
    have asked := (Variable.prefix_declareAll _ _).trans longer
    have written := assembly_stepped job declared node single asked
    exact .step declared single asked (ih (d.stepped job node) _ (by rw [written]; rfl)
      (by simp [written, Assembly.endBlock, Assembly.write, known]) longer)
  | @branch placed middle after uuid node first second fresh found entered double holds fails
      ihFirst ihSecond =>
    obtain ⟨-, rfl⟩ := Graph.node?_eq_some found
    simp only [Chain.demands, Variable.declareAll_append] at longer
    have longer' := (Variable.prefix_declareAll _ _).trans longer
    have asked := (Variable.prefix_declareAll _ _).trans longer'
    have written := assembly_entered job declared node double asked
    have opened : (d.entered job node).assembly.globals =
        table (declareAll vars (node.demands job.graph)) := by
      rw [written]
      rfl
    have seen : (d.entered job node).assembly.labels.map Prod.fst = node.uuid :: placed := by
      simp [written, known]
    obtain ⟨globals, -, labels⟩ := lowerChain_counts holds _ _ opened seen
    exact .branch declared double asked (ihFirst _ _ opened seen longer')
      (ihSecond _ _ (by rw [globals_turned, globals]) (by rw [labels_turned, labels]) longer)

/-- While slots are exact, the lines are those of the closed form. -/
theorem Lowers.written {chain : Chain} {e : Draft} (lowers : Lowers job fin chain d e)
    (few : fin.length ≤ 65536) : Written job chain d e := by
  induction lowers with
  | stop d => constructor <;> simp [Assembly.leave, Assembly.emit, Assembly.write, Chain.lines]
  | jump found =>
    constructor <;> simp [Assembly.goto, found, Assembly.emit, Assembly.write, Chain.lines]
  | @step d e vars node rest declared single asked behind ih =>
    have written := assembly_stepped job declared node single asked
    obtain ⟨spelled, -⟩ := node.lines_text asked few d.assembly.indent
    constructor
    case lines =>
      rw [ih.lines, written, Chain.lines]
      simp [Assembly.endBlock, Assembly.write, single, spelled]
    case indent =>
      rw [ih.indent, written]
      simp [Assembly.endBlock, Assembly.write, single]
  | @branch d held e vars node first second declared double asked arm other ihFirst ihSecond =>
    have written := assembly_entered job declared node double asked
    have spelled := node.lines_text asked few
    obtain ⟨-, -, prelude⟩ := head_spec job declared node double asked
    rw [(spelled 0).2] at prelude
    have arms := assembly_turned job d held node
    rw [headed, prelude, Assembly.turnArms_eq] at arms
    constructor
    case lines =>
      simp [Assembly.closeGroup, Assembly.endBlock, Assembly.write, ihSecond.lines,
        ihSecond.indent, arms, ihFirst.lines, ihFirst.indent, written, Chain.lines, double,
        (spelled _).1]
    case indent =>
      simp [Assembly.closeGroup, Assembly.endBlock, Assembly.write, ihSecond.indent, arms,
        ihFirst.indent, written, double]

theorem lowerChain_written {placed after : List Uuid} {target : Option Uuid} {chain : Chain}
    (laid : Chain.Lays job.graph placed target chain after) (d : Draft) (vars : List Variable)
    (declared : d.assembly.globals = table vars) (known : d.assembly.labels.map Prod.fst = placed)
    (longer : declareAll vars (chain.demands job.graph) <+: fin) (few : fin.length ≤ 65536) :
    Written job chain d (lowerChain job chain d) :=
  (lowers_lowerChain laid d vars declared known longer).written few

end Draft

namespace Lowered

open Draft

variable {job : Job} {d e : Draft} {vars fin : List Variable} {address : Uuid → Nat}
  {after middle : List Uuid} {node : Node}

theorem size {chain : Chain} (spec : Lowered job vars fin address after chain d e) :
    e.assembly.code.size = d.assembly.code.size + chain.size job.graph := by
  rw [← Array.length_toList, spec.code, List.length_append, Array.length_toList,
    Chain.length_code]

/-- A chain that begins with a node with one way out. -/
theorem step {rest : Chain} (declared : d.assembly.globals = table vars)
    (single : node.type.branches = false)
    (longer : declareAll vars (node.demands job.graph) <+: fin) (few : fin.length ≤ slotLimit)
    (lines : Written job (.step node rest) d e)
    (spec : Lowered job (declareAll vars (node.demands job.graph)) fin address after rest
      (d.stepped job node) e) :
    Lowered job vars fin address after (.step node rest) d e := by
  have written := assembly_stepped job declared node single longer
  have quiet := failure_stepped job declared node single longer few
  constructor
  case globals => rw [spec.globals, Chain.demands, Variable.declareAll_append]
  case code =>
    rw [spec.code, written, Chain.code, ← List.append_assoc]
    simp [Assembly.endBlock, Assembly.write]
  case lines => exact lines.lines
  case indent => exact lines.indent
  case maxLocals =>
    rw [spec.maxLocals, written, Chain.frame, ← Nat.max_assoc]
    simp [Assembly.endBlock, Assembly.write]
  case labels => exact spec.labels
  case failure => rw [spec.failure, quiet]

/-- Behind the first arm of a branching node the jump at the end of its head, which was emitted
without a target, leads here. -/
theorem turned_code {first : Chain} {held : Draft} (declared : d.assembly.globals = table vars)
    (double : node.type.branches = true)
    (longer : declareAll vars (node.demands job.graph) <+: fin)
    (room : d.assembly.code.size + node.size job.graph < UInt32.size)
    (spec : Lowered job (declareAll vars (node.demands job.graph)) fin address middle first
      (d.entered job node) held) :
    (d.turned held job node).assembly.code.toList = d.assembly.code.toList ++
      (node.code job.graph fin held.assembly.here ++
        first.code job.graph fin address (d.assembly.code.size + node.size job.graph)) := by
  obtain ⟨block, -⟩ := head_spec job declared node double longer
  have written := assembly_entered job declared node double longer
  have headSize : (d.headed job node).1.assembly.code.size =
      d.assembly.code.size + node.size job.graph := by
    rw [headed, block, Assembly.size_block]
  have nonempty := node.size_pos job.graph double
  rw [assembly_turned, Assembly.turnArms_eq]
  refine Assembly.patch_head double (by rw [spec.code, written]; simp) ?_ _
  rw [Assembly.toNat_here_sub_one _ (by omega) (by omega), headSize]
  rfl

/-- A chain that begins with a branching node. -/
theorem branch {first second : Chain} {held : Draft} (declared : d.assembly.globals = table vars)
    (double : node.type.branches = true)
    (longer : declareAll vars (node.demands job.graph) <+: fin) (few : fin.length ≤ slotLimit)
    (room : d.assembly.code.size + node.size job.graph < UInt32.size)
    (lines : Written job (.branch node first second) d
      (e.edit fun a => (a.closeGroup .closeBlock).endBlock))
    (spec : Lowered job (declareAll vars (node.demands job.graph)) fin address middle first
      (d.entered job node) held)
    (spec' : Lowered job
      (declareAll (declareAll vars (node.demands job.graph)) (first.demands job.graph)) fin address
      after second (d.turned held job node) e) :
    Lowered job vars fin address after (.branch node first second) d
      (e.edit fun a => (a.closeGroup .closeBlock).endBlock) := by
  have written := assembly_entered job declared node double longer
  have quiet := failure_entered job declared node double longer few
  have arms := assembly_turned job d held node
  rw [Assembly.turnArms_eq] at arms
  have code := turned_code declared double longer room spec
  have heldSize := spec.size
  rw [written, Assembly.size_block] at heldSize
  constructor
  case globals => simp only [assembly_edit, Assembly.endBlock, Assembly.closeGroup, Assembly.write,
    spec'.globals, Chain.demands, Variable.declareAll_append]
  case code =>
    change e.assembly.code.toList = _
    rw [spec'.code, code, size_turned, heldSize, Chain.code, Assembly.here, heldSize]
    simp only [List.append_assoc]
  case lines => exact lines.lines
  case indent => exact lines.indent
  case maxLocals =>
    simp [Assembly.closeGroup, Assembly.endBlock, Assembly.write, spec'.maxLocals, arms,
      Assembly.patch, spec.maxLocals, written, Chain.frame, Nat.max_assoc]
  case labels => exact spec'.labels
  case failure =>
    rw [failure_edit, spec'.failure, turned, failure_noteLinks, failure_edit, spec.failure, quiet]

end Lowered

namespace Draft

variable {job : Job} {d : Draft} {vars fin : List Variable} {address : Uuid → Nat}

theorem lowerChain_spec {placed after : List Uuid} {target : Option Uuid} {chain : Chain}
    (laid : Chain.Lays job.graph placed target chain after) (d : Draft) (vars : List Variable)
    (declared : d.assembly.globals = table vars)
    (labelled : d.assembly.labels = placed.map (labelAt address))
    (longer : declareAll vars (chain.demands job.graph) <+: fin)
    (few : fin.length ≤ slotLimit)
    (room : d.assembly.code.size + chain.size job.graph < UInt32.size)
    (agree : ∀ place ∈ chain.places job.graph d.assembly.code.size, address place.1 = place.2) :
    Lowered job vars fin address after chain d (lowerChain job chain d) := by
  have few' : fin.length ≤ 65536 := Nat.le_trans few (by decide)
  induction laid generalizing d vars with
  | stop placed =>
    constructor <;> simp [lowerChain, Assembly.leave, Assembly.emit, Assembly.write, declared,
      labelled, Chain.demands, Chain.code, Chain.lines, Chain.frame]
  | jump seen =>
    have found := Assembly.addressOf?_placed labelled seen
    constructor <;> simp [lowerChain, Assembly.goto, found, Assembly.emit, Assembly.write,
      declared, labelled, Chain.demands, Chain.code, Chain.lines, Chain.frame]
  | @step placed after uuid node rest fresh found entered single next ih =>
    obtain ⟨-, rfl⟩ := Graph.node?_eq_some found
    have lines := lowerChain_written (.step fresh found entered single next) d vars declared
      (by rw [labelled, keys_labelAt]) longer few'
    simp only [Chain.demands, Variable.declareAll_append, Chain.size, Chain.places,
      List.forall_mem_cons] at longer room agree
    have asked := (Variable.prefix_declareAll _ _).trans longer
    have written := assembly_stepped job declared node single asked
    have size : (d.stepped job node).assembly.code.size =
        d.assembly.code.size + node.size job.graph := by
      simp [written, Assembly.endBlock, Assembly.write]
    have labels : (d.stepped job node).assembly.labels =
        (node.uuid :: placed).map (labelAt address) := by
      rw [written, List.map_cons, ← labelled, labelAt, agree.1]
      rfl
    rw [lowerChain_step] at lines ⊢
    exact .step declared single asked few lines (ih _ _ (by rw [written]; rfl) labels longer
      (by rw [size]; omega) (by rw [size]; exact agree.2))
  | @branch placed middle after uuid node first second fresh found entered double holds fails
      ihFirst ihSecond =>
    obtain ⟨-, rfl⟩ := Graph.node?_eq_some found
    have lines := lowerChain_written (.branch fresh found entered double holds fails) d vars
      declared (by rw [labelled, keys_labelAt]) longer few'
    simp only [Chain.demands, Variable.declareAll_append, Chain.size, Chain.places,
      List.forall_mem_cons, List.forall_mem_append] at longer room agree
    have longer' := (Variable.prefix_declareAll _ _).trans longer
    have asked := (Variable.prefix_declareAll _ _).trans longer'
    have written := assembly_entered job declared node double asked
    have size : (d.entered job node).assembly.code.size =
        d.assembly.code.size + node.size job.graph := by
      simp [written]
    have labels : (d.entered job node).assembly.labels =
        (node.uuid :: placed).map (labelAt address) := by
      rw [written, List.map_cons, ← labelled, labelAt, agree.1]
      rfl
    have spec := ihFirst _ _ (by rw [written]; rfl) labels longer' (by rw [size]; omega)
      (by rw [size]; exact agree.2.1)
    have armSize := spec.size
    rw [size] at armSize
    rw [lowerChain_branch] at lines ⊢
    exact .branch declared double asked few (by omega) lines spec
      (ihSecond _ _ (by rw [globals_turned, spec.globals]) (by rw [labels_turned, spec.labels])
        longer (by rw [size_turned, armSize]; omega)
        (by rw [size_turned, armSize]; exact agree.2.2))

end Draft

end NodeScript
