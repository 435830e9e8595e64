import NodeScript.Compile.Lowering
import NodeScript.Proofs.Compile.Layout
import NodeScript.Proofs.Compile.Variables
import NodeScript.Proofs.Graph.Meaning

/-!
The code of a chain in closed form. A node is a block: its constants, then one instruction; arms
and what follows are laid behind it. Slots and addresses are those of the finished unit, which a
lowering under way only knows in part, so nothing here is patched.
-/
namespace NodeScript

/-- A constant that a node binds. -/
structure Constant where
  type : String
  name : String
  value : Int64
  deriving DecidableEq, Repr

namespace Input

/-- The variables that have to exist for the input to be read. -/
def demands : Input → List Variable
  | constant _ => []
  | result node => [.result node]

/-- A number is copied into the frame under a name. -/
def constants (name : String) : Input → List Constant
  | constant value => [⟨"int32_t", name, value⟩]
  | result _ => []

/-- The operand before it is copied. -/
def source (vars : List Variable) : Input → Operand
  | constant value => .constant value
  | result node => .global (Variable.slotOf vars (.result node))

/-- The operand of the comparison, where a copy goes to the given slot. -/
def operand (vars : List Variable) (slot : Nat) : Input → Operand
  | constant _ => .frame slot.toUInt16
  | result node => .global (Variable.slotOf vars (.result node))

/-- The operand in source, given how variables are spelled. -/
def text (spell : Variable → String) (name : String) : Input → String
  | constant _ => name
  | result node => spell (.result node)

end Input

namespace Node

variable (g : Graph)

/-- The constants of a node's block, in the order of their slots. -/
def constants (node : Node) : List Constant :=
  match node.kind with
  | .wait time => [⟨"uint64_t", "t_time", pauseLength time⟩]
  | .deleteObject object => [⟨"uint16_t", "t_objId", Int64.ofNat object.toNat⟩]
  | .sendEvent object eventType value =>
    [⟨"uint16_t", "t_objId", Int64.ofNat object.toNat⟩,
      ⟨"uint16_t", "t_eventType", Int64.ofNat eventType.toNat⟩,
      ⟨"uint32_t", "t_eventVal", Int64.ofNat value.toNat⟩]
  | .compare _ =>
    (g.input node.uuid 1).constants "t_a" ++ (g.input node.uuid 2).constants "t_b"
  | .function _ argument => [⟨"uint32_t", "t_arg", Int64.ofNat argument.toNat⟩]
  | _ => []

/-- The variables that a node declares, in order. -/
def demands (node : Node) : List Variable :=
  match node.kind with
  | .compare _ => (g.input node.uuid 1).demands ++ (g.input node.uuid 2).demands
  | .function name _ => [.function (crc32 name), .result node.uuid]
  | .loop _ => [.counter node.uuid]
  | _ => []

/-- The instruction that a node is for. A test jumps to `target` where it fails. -/
def operation (vars : List Variable) (target : Addr) (node : Node) : List Instruction :=
  match node.kind with
  | .wait _ => [.sleep (.frame 0)]
  | .deleteObject _ => [.deleteObject (.frame 0)]
  | .sendEvent .. => [.sendEvent (.frame 0) (.frame 1) (.frame 2)]
  | .compare op =>
    [.jumpUnless op ((g.input node.uuid 1).operand vars 0)
      ((g.input node.uuid 2).operand vars ((g.input node.uuid 1).constants "t_a").length) target]
  | .function name _ =>
    [.call (Variable.slotOf vars (.function (crc32 name))) (.frame 0)
      (Variable.slotOf vars (.result node.uuid))]
  | .loop count => [.loop (Variable.slotOf vars (.counter node.uuid)) count target]
  | _ => []

/-- The instructions that bind constants from a slot on. -/
def bindings (slot : Nat) : List Constant → List Instruction
  | [] => []
  | constant :: rest => .setLocal slot.toUInt16 constant.value :: bindings (slot + 1) rest

def code (vars : List Variable) (target : Addr) (node : Node) : List Instruction :=
  bindings 0 (node.constants g) ++ node.operation g vars target

def size (node : Node) : Nat := (node.code g [] 0).length

/-- The label of a node that several links lead to, the head of its block and its title. -/
def opening (indent : Nat) (node : Node) : List Line :=
  (if 1 < g.logicInDegree node.uuid then [.label (Assembly.labelName node.uuid)] else []) ++
    [.statement indent .openBlock, .statement (indent + 1) (.comment node.kind.title)]

/-- What a node does, in source, given how variables are spelled. A test opens its first arm. -/
def statements (spell : Variable → String) (indent : Nat) (node : Node) : List Line :=
  match node.kind with
  | .wait _ => [.statement indent (.sleep "t_time")]
  | .deleteObject _ => [.statement indent (.removeObject "t_objId")]
  | .sendEvent .. => [.statement indent (.sendEvent "t_objId" "t_eventType" "t_eventVal")]
  | .compare op =>
    [.statement indent (.ifCompare ((g.input node.uuid 1).text spell "t_a") op
      ((g.input node.uuid 2).text spell "t_b"))]
  | .function name _ =>
    [.statement indent (.call (spell (.result node.uuid)) (spell (.function (crc32 name))) "t_arg")]
  | .loop count =>
    [.statement indent (.ifBelow (spell (.counter node.uuid)) count),
      .statement (indent + 1) (.increment (spell (.counter node.uuid)))]
  | _ => []

/-- The block of a node up to its end or its first arm. -/
def lines (spell : Variable → String) (indent : Nat) (node : Node) : List Line :=
  node.opening g indent ++
    (node.constants g).map (fun c => .statement (indent + 1) (.constant c.type c.name c.value)) ++
    node.statements g spell (indent + 1)

/-- What opens the second arm of a loop. -/
def prelude (spell : Variable → String) (node : Node) : Option Statement :=
  match node.kind with
  | .loop _ => some (.reset (spell (.counter node.uuid)))
  | _ => none

/-- Only the variables that a node asks for are spelled out. -/
theorem lines_congr {spell other : Variable → String} (node : Node)
    (same : ∀ v ∈ node.demands g, spell v = other v) (indent : Nat) :
    node.lines g spell indent = node.lines g other indent ∧
      node.prelude spell = node.prelude other := by
  have inputs : ∀ (input : Input) (name : String), (∀ v ∈ input.demands, spell v = other v) →
      input.text spell name = input.text other name := by
    intro input name same
    cases input with
    | constant value => rfl
    | result node => exact same _ (by simp [Input.demands])
  unfold lines statements prelude
  unfold demands at same
  cases kind : node.kind with
  | compare op =>
    simp only [kind] at same
    rw [inputs _ _ fun v member => same v (List.mem_append_left _ member),
      inputs _ _ fun v member => same v (List.mem_append_right _ member)]
    exact ⟨rfl, rfl⟩
  | function name argument => simp_all
  | loop count => simp_all
  | _ => exact ⟨rfl, rfl⟩

theorem length_bindings (slot : Nat) (constants : List Constant) :
    (bindings slot constants).length = constants.length := by
  induction constants generalizing slot with
  | nil => rfl
  | cons constant rest ih => simp [bindings, ih]

theorem bindings_append (slot : Nat) (first second : List Constant) :
    bindings slot (first ++ second) =
      bindings slot first ++ bindings (slot + first.length) second := by
  induction first generalizing slot with
  | nil => rfl
  | cons constant rest ih =>
    simp only [List.cons_append, bindings, ih, List.length_cons]
    rw [Nat.add_assoc, Nat.add_comm 1]

theorem getElem?_bindings (slot : Nat) (constants : List Constant) (index : Nat) :
    (bindings slot constants)[index]? =
      constants[index]?.map fun constant => .setLocal (slot + index).toUInt16 constant.value := by
  induction constants generalizing slot index with
  | nil => rfl
  | cons constant rest ih =>
    cases index with
    | zero => rfl
    | succ index =>
      have shift : slot + 1 + index = slot + (index + 1) := by omega
      simpa [bindings, shift] using ih (slot + 1) index

/-- A constant of a node is bound where it stands among the constants. -/
theorem getElem?_code_constant (vars : List Variable) (target : Addr) (node : Node) {index : Nat}
    {constant : Constant} (found : (node.constants g)[index]? = some constant) :
    (node.code g vars target)[index]? = some (.setLocal index.toUInt16 constant.value) := by
  have inside := (List.getElem?_eq_some_iff.mp found).1
  rw [code, List.getElem?_append_left (by rwa [length_bindings]), getElem?_bindings, found,
    Option.map_some, Nat.zero_add]

@[simp] theorem length_code (vars : List Variable) (target : Addr) (node : Node) :
    (node.code g vars target).length = node.size g := by
  unfold size code operation
  cases node.kind <;> simp

theorem size_of_operation {vars : List Variable} {target : Addr} {node : Node}
    {instruction : Instruction} (only : node.operation g vars target = [instruction]) :
    node.size g = (node.constants g).length + 1 := by
  rw [← node.length_code g vars target, code, only, List.length_append, length_bindings,
    List.length_singleton]

/-- A branching node ends with its test. -/
theorem size_pos (node : Node) (double : node.type.branches = true) : 0 < node.size g := by
  unfold size code operation
  cases kind : node.kind with
  | compare | loop => simp
  | _ => simp [Node.type, kind, NodeKind.type, NodeType.branches] at double

theorem length_constants_le (node : Node) : (node.constants g).length ≤ 3 := by
  have short : ∀ (input : Input) name, (input.constants name).length ≤ 1 := by
    intro input name
    cases input <;> simp [Input.constants]
  unfold constants
  cases node.kind with
  | compare op =>
    have first := short (g.input node.uuid 1) "t_a"
    have second := short (g.input node.uuid 2) "t_b"
    simp only [List.length_append]
    omega
  | _ => simp

end Node

namespace Chain

variable (g : Graph)

/-- The number of instructions of a chain. -/
def size : Chain → Nat
  | stop | jump _ => 1
  | step node rest => node.size g + rest.size
  | branch node first second => node.size g + first.size + second.size

/-- The variables that a chain declares, in order. -/
def demands : Chain → List Variable
  | stop | jump _ => []
  | step node rest => node.demands g ++ rest.demands
  | branch node first second => node.demands g ++ (first.demands ++ second.demands)

/-- The most constants that a node of the chain binds. -/
def frame : Chain → Nat
  | stop | jump _ => 0
  | step node rest => max (node.constants g).length rest.frame
  | branch node first second => max (node.constants g).length (max first.frame second.frame)

/-- Where the nodes of a chain come to stand. -/
def places : (base : Nat) → Chain → List (Uuid × Nat)
  | _, stop | _, jump _ => []
  | base, step node rest => (node.uuid, base) :: rest.places (base + node.size g)
  | base, branch node first second =>
    (node.uuid, base) :: (first.places (base + node.size g) ++
      second.places (base + node.size g + first.size g))

/-- The instructions of a chain from an address on. -/
def code (vars : List Variable) (address : Uuid → Nat) : (base : Nat) → Chain → List Instruction
  | _, stop => [.finish]
  | _, jump uuid => [.jump (address uuid).toUInt32]
  | base, step node rest =>
    node.code g vars 0 ++ rest.code vars address (base + node.size g)
  | base, branch node first second =>
    node.code g vars (base + node.size g + first.size g).toUInt32 ++
      (first.code vars address (base + node.size g) ++
        second.code vars address (base + node.size g + first.size g))

/-- The source lines of a chain. -/
def lines : (indent : Nat) → Chain → List Line
  | indent, stop => [.statement indent .leave]
  | indent, jump uuid => [.statement indent (.goto (Assembly.labelName uuid))]
  | indent, step node rest =>
    node.lines g Variable.text indent ++ .statement indent .closeBlock :: rest.lines indent
  | indent, branch node first second =>
    node.lines g Variable.text indent ++ first.lines (indent + 2) ++
      .statement (indent + 1) .orElse ::
        ((node.prelude Variable.text).toList.map (Line.statement (indent + 2)) ++
          second.lines (indent + 2) ++
          [.statement (indent + 1) .closeBlock, .statement indent .closeBlock])

@[simp] theorem length_code (vars : List Variable) (address : Uuid → Nat) (base : Nat)
    (chain : Chain) : (chain.code g vars address base).length = chain.size g := by
  induction chain generalizing base with
  | stop | jump => rfl
  | step node rest ih => simp [code, size, ih]
  | branch node first second firstLength secondLength =>
    simp [code, size, firstLength, secondLength, Nat.add_assoc]

theorem frame_le (chain : Chain) : chain.frame g ≤ 3 := by
  induction chain with
  | stop | jump => exact Nat.zero_le 3
  | step node rest ih => exact Nat.max_le.mpr ⟨node.length_constants_le g, ih⟩
  | branch node first second firstLe secondLe =>
    exact Nat.max_le.mpr ⟨node.length_constants_le g, Nat.max_le.mpr ⟨firstLe, secondLe⟩⟩

theorem keys_places (chain : Chain) (base : Nat) :
    (chain.places g base).map Prod.fst = chain.nodes.map (·.uuid) := by
  induction chain generalizing base with
  | stop | jump => rfl
  | step node rest ih => simp [places, nodes, ih]
  | branch node first second firstKeys secondKeys => simp [places, nodes, firstKeys, secondKeys]

theorem size_pos (chain : Chain) : 0 < chain.size g := by
  induction chain with
  | stop | jump => exact Nat.one_pos
  | step node rest ih => exact Nat.add_pos_right _ ih
  | branch node first second firstPos secondPos => exact Nat.add_pos_right _ secondPos

end Chain

end NodeScript
