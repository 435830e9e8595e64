import NodeScript.Proofs.Compile.Placement
import NodeScript.Proofs.Source.Structure

/-!
The lines of a unit are legible, and the names in them stand for what they were written for: a
variable for its slot, and the name of a constant for its place in the block. So what a node is for
is said by its statement.
-/
namespace NodeScript

open Source (plain plain_append numeral? Context Item)

namespace Variable

/-- A variable is written with its name, behind the state if every instance has one of its own. -/
theorem text_cases (v : Variable) :
    v.text = "state->" ++ v.name ∨ ∃ hash, v = .function hash ∧ v.text = v.name := by
  cases v with
  | counter | result => exact .inl rfl
  | function hash => exact .inr ⟨hash, rfl, rfl⟩

theorem plain_name (v : Variable) : plain v.name = true := by
  cases v with
  | counter node | result node =>
    exact plain_append (plain_append (by decide) (by decide)) (Source.plain_hex64 node)
  | function hash => exact plain_append (by decide) (Source.plain_hex32 hash)

theorem plain_text (v : Variable) : plain v.text = true := by
  rcases v.text_cases with same | ⟨-, -, same⟩ <;> rw [same]
  · exact plain_append (by decide) v.plain_name
  · exact v.plain_name

/-- What a variable is written as begins with a letter that no constant begins with. -/
theorem text_head (v : Variable) :
    v.text.toList.head? = some 's' ∨ v.text.toList.head? = some 'f' := by
  rcases v.text_cases with same | ⟨hash, rfl, same⟩ <;> rw [same]
  · exact .inl (by simp [String.toList_append])
  · exact .inr (by simp [name, String.toList_append])

theorem numeral?_text (v : Variable) : numeral? v.text.toList = none := by
  have head := v.text_head
  cases letters : v.text.toList with
  | nil => rfl
  | cons c rest =>
    have digit : c.isDigit = false := by
      rw [letters] at head
      rcases head with first | first <;> cases first <;> rfl
    simp [numeral?, digit]

/-- The name of a constant is none of a variable. -/
theorem text_ne {v : Variable} {name : String} (constant : name.toList.head? = some 't') :
    v.text ≠ name := by
  rintro rfl
  rcases v.text_head with head | head <;> rw [head] at constant <;> cases constant

/-- A declared variable is found by what it is written as. -/
theorem slot?_text {context : Context} {vars : List Variable}
    (declared : context.globals = vars.map fun v => v.declaration.global) {v : Variable}
    (member : v ∈ vars) : context.slot? v.text = some (slotOf vars v) := by
  have same : (fun global : Global => global.text == v.text) ∘
      (fun w : Variable => w.declaration.global) = (· == v) := by
    funext w
    have : (w.text == v.text) = (w == v) := by
      rw [Bool.eq_iff_iff]
      simp only [beq_iff_eq]
      exact ⟨text_injective, congrArg text⟩
    exact this
  rw [Context.slot?, declared, List.findIdx?_map, same, List.findIdx?_eq_guard_findIdx_lt]
  change (Option.guard _ (vars.idxOf v)).map _ = _
  simp [Option.guard, List.idxOf_lt_length_iff, member, slotOf]

theorem operand?_text {context : Context} {vars : List Variable}
    (declared : context.globals = vars.map fun v => v.declaration.global) {v : Variable}
    (member : v ∈ vars) {scope : List String} (outside : v.text ∉ scope) :
    context.operand? scope v.text = some (.global (slotOf vars v)) := by
  rw [Context.operand?, if_neg outside, slot?_text declared member]
  rfl

end Variable

/-- An input is found by its text: under its name among the constants, or as a variable. -/
theorem Input.operand?_text {context : Context} {vars : List Variable}
    (declared : context.globals = vars.map fun v => v.declaration.global) (input : Input)
    (asked : input.demands ⊆ vars) (before after : List String) (name : String)
    (others : ∀ other ∈ before ++ after, other.toList.head? = some 't' ∧ other ≠ name) :
    context.operand? (before ++ ((input.constants name).map (·.name) ++ after))
      (input.text Variable.text name) = some (input.operand vars before.length) := by
  cases input with
  | constant value =>
    have new : name ∉ before := fun member => (others name (by simp [member])).2 rfl
    simp [Context.operand?, Input.text, Input.constants, Input.operand, List.idxOf_append, new]
  | result node =>
    refine Variable.operand?_text declared (asked (by simp [Input.demands])) fun member => ?_
    exact Variable.text_ne (others _ (by simpa [Input.constants] using member)).1 rfl

namespace Node

variable (g : Graph) {vars : List Variable} {context : Context}

/-- What a node with one way out does is said by its statement. -/
theorem action_means (node : Node) (entered : node.type.inputs ≠ [])
    (single : node.type.branches = false)
    (declared : context.globals = vars.map fun v => v.declaration.global)
    (asked : node.demands g ⊆ vars) :
    ∃ action operation,
      (∀ indent, (node.statements g Variable.text indent).flatMap Item.ofLine =
        [.statement action]) ∧
      node.operation g vars 0 = [operation] ∧
      context.instruction? ((node.constants g).map (·.name)) action = some operation ∧
      Source.bound action = [] := by
  obtain ⟨uuid, kind, position⟩ := node
  cases kind with
  | start | value => simp [Node.type, NodeKind.type, NodeType.inputs] at entered
  | compare | loop => simp [Node.type, NodeKind.type, NodeType.branches] at single
  | wait | deleteObject | sendEvent => exact ⟨_, _, fun _ => rfl, rfl, by rfl, rfl⟩
  | function name argument =>
    refine ⟨_, _, fun _ => rfl, rfl, ?_, rfl⟩
    have function := Variable.slot?_text declared (asked (List.mem_cons_self ..))
    have result := Variable.slot?_text declared
      (asked (List.mem_cons_of_mem _ (List.mem_cons_self ..)))
    simp only [Context.instruction?, function, result]
    rfl

/-- The test of a branching node is said by what opens its first arm. -/
theorem test_means (node : Node) (double : node.type.branches = true)
    (declared : context.globals = vars.map fun v => v.declaration.global)
    (asked : node.demands g ⊆ vars) :
    ∃ (test : Statement) (jump : Nat → Instruction),
      (∀ indent, (node.statements g Variable.text indent).flatMap Item.ofLine =
        .statement test :: Source.ups test) ∧
      (∀ indent, ((node.prelude Variable.text).toList.map (Line.statement indent)).flatMap
        Item.ofLine = Source.downs test) ∧
      (∀ exit : Nat, node.operation g vars exit.toUInt32 = [jump exit]) ∧
      ∀ exit : Nat, context.test? ((node.constants g).map (·.name)) exit.toUInt32 test =
        some (jump exit) := by
  obtain ⟨uuid, kind, position⟩ := node
  cases kind with
  | start | value | wait | deleteObject | sendEvent | function =>
    simp [Node.type, NodeKind.type, NodeType.branches] at double
  | loop count =>
    refine ⟨_, _, fun _ => rfl, fun _ => rfl, fun _ => rfl, fun exit => ?_⟩
    have counter := Variable.slot?_text declared (asked (List.mem_cons_self ..))
    simp only [Context.test?, counter]
    rfl
  | compare op =>
    obtain ⟨first, second⟩ := List.append_subset.mp asked
    refine ⟨_, _, fun _ => rfl, fun _ => rfl, fun _ => rfl, fun exit => ?_⟩
    have named : ∀ (input : Input) (name : String), ∀ other ∈ (input.constants name).map (·.name),
        other = name := by
      intro input name other member
      cases input <;> simp_all [Input.constants]
    have lhs := Input.operand?_text declared (g.input uuid 1) first []
      (((g.input uuid 2).constants "t_b").map (·.name)) "t_a" fun other member => by
        rw [named _ _ other member]
        decide
    have rhs := Input.operand?_text declared (g.input uuid 2) second
      (((g.input uuid 1).constants "t_a").map (·.name)) [] "t_b" fun other member => by
        rw [List.append_nil] at member
        rw [named _ _ other member]
        decide
    rw [List.nil_append] at lhs
    rw [List.append_nil, List.length_map] at rhs
    simp only [Context.test?, constants, List.map_append, lhs, rhs]
    rfl

/-- The types of constants. -/
def constantTypes : List String := ["uint16_t", "uint32_t", "uint64_t", "int32_t"]

/-- The names of constants. -/
def constantNames : List String :=
  ["t_time", "t_objId", "t_eventType", "t_eventVal", "t_arg", "t_a", "t_b"]

/-- The words that constants are declared with. -/
def constantWords : List String :=
  ["uint16_t", "uint32_t", "uint64_t", "int32_t", "t_time", "t_objId", "t_eventType", "t_eventVal",
    "t_arg", "t_a", "t_b"]

theorem constants_named (node : Node) :
    ∀ constant ∈ node.constants g,
      constant.type ∈ constantTypes ∧ constant.name ∈ constantNames := by
  have input : ∀ (input : Input) (name : String), name ∈ constantNames →
      ∀ constant ∈ input.constants name,
        constant.type ∈ constantTypes ∧ constant.name ∈ constantNames := by
    intro input name known constant member
    cases input with
    | constant value =>
      obtain rfl := List.mem_singleton.mp member
      exact ⟨by simp [constantTypes], known⟩
    | result => cases member
  unfold constants
  cases node.kind with
  | compare op =>
    exact List.forall_mem_append.mpr ⟨input _ _ (by decide), input _ _ (by decide)⟩
  | _ => simp [constantTypes, constantNames]

theorem constants_words (node : Node) :
    ∀ constant ∈ node.constants g,
      constant.type ∈ constantWords ∧ constant.name ∈ constantWords := by
  have types : constantTypes ⊆ constantWords := by decide
  have names : constantNames ⊆ constantWords := by decide
  intro constant member
  obtain ⟨type, name⟩ := node.constants_named g constant member
  exact ⟨types type, names name⟩

theorem constants_legible (node : Node) :
    ∀ constant ∈ node.constants g, plain constant.type = true ∧ plain constant.name = true := by
  have known : ∀ word ∈ constantWords, plain word = true := by decide
  intro constant member
  obtain ⟨type, name⟩ := node.constants_words g constant member
  exact ⟨known _ type, known _ name⟩

theorem plain_labelName (uuid : Uuid) : plain (Assembly.labelName uuid) = true :=
  plain_append (by decide) (Source.plain_hex64 uuid)

theorem statements_legible (node : Node) (indent : Nat) :
    ∀ line ∈ node.statements g Variable.text indent, Source.legibleLine line := by
  have input : ∀ (input : Input) (name : String), plain name = true →
      numeral? name.toList = none →
      plain (input.text Variable.text name) = true ∧
        numeral? (input.text Variable.text name).toList = none := by
    intro input name whole word
    cases input with
    | constant value => exact ⟨whole, word⟩
    | result node => exact ⟨Variable.plain_text _, Variable.numeral?_text _⟩
  unfold statements
  cases node.kind with
  | start | value => simp
  | wait | deleteObject => exact List.forall_mem_singleton.mpr (by decide : plain _ = true)
  | sendEvent =>
    exact List.forall_mem_singleton.mpr ⟨by decide, by decide, by decide⟩
  | function name argument =>
    exact List.forall_mem_singleton.mpr
      ⟨Variable.plain_text _, Variable.plain_text _, by decide⟩
  | compare op =>
    obtain ⟨lhs, -⟩ := input (g.input node.uuid 1) "t_a" (by decide) (by decide)
    obtain ⟨rhs, word⟩ := input (g.input node.uuid 2) "t_b" (by decide) (by decide)
    exact List.forall_mem_singleton.mpr ⟨lhs, rhs, word⟩
  | loop count =>
    exact List.forall_mem_cons.mpr ⟨Variable.plain_text _,
      List.forall_mem_singleton.mpr (Variable.plain_text _)⟩

theorem lines_legible (node : Node) (indent : Nat) :
    ∀ line ∈ node.lines g Variable.text indent, Source.legibleLine line := by
  have opening : ∀ line ∈ node.opening g indent, Source.legibleLine line := by
    refine List.forall_mem_append.mpr ⟨?_, ?_⟩
    · split
      · exact List.forall_mem_singleton.mpr (plain_labelName _)
      · simp
    · exact List.forall_mem_cons.mpr ⟨trivial, List.forall_mem_singleton.mpr trivial⟩
  have constants : ∀ line ∈ (node.constants g).map
      (fun c => Line.statement (indent + 1) (.constant c.type c.name c.value)),
      Source.legibleLine line := by
    intro line member
    obtain ⟨constant, inside, rfl⟩ := List.mem_map.mp member
    exact node.constants_legible g constant inside
  exact List.forall_mem_append.mpr ⟨List.forall_mem_append.mpr ⟨opening, constants⟩,
    node.statements_legible g (indent + 1)⟩

end Node

/-- What holds of the lines of nodes and of those between them holds of the lines of a chain. -/
theorem Chain.forall_lines (g : Graph) {P : Line → Prop} (chain : Chain)
    (between : ∀ indent, 0 < indent → ∀ content ∈ [Statement.leave, .orElse, .closeBlock],
      P (.statement indent content))
    (goto : ∀ indent, 0 < indent → ∀ uuid, P (.statement indent (.goto (Assembly.labelName uuid))))
    (nodes : ∀ node ∈ chain.nodes, ∀ indent, 0 < indent →
      (∀ line ∈ node.lines g Variable.text indent, P line) ∧
        ∀ content ∈ node.prelude Variable.text, P (.statement indent content))
    {indent : Nat} (inside : 0 < indent) : ∀ line ∈ chain.lines g indent, P line := by
  induction chain generalizing indent with
  | stop => exact List.forall_mem_singleton.mpr (between indent inside _ (by simp))
  | jump uuid => exact List.forall_mem_singleton.mpr (goto indent inside uuid)
  | step node rest ih =>
    obtain ⟨first, others⟩ := List.forall_mem_cons.mp nodes
    exact List.forall_mem_append.mpr ⟨(first indent inside).1,
      List.forall_mem_cons.mpr ⟨between indent inside _ (by simp), ih others inside⟩⟩
  | branch node first second ihFirst ihSecond =>
    obtain ⟨own, others⟩ := List.forall_mem_cons.mp nodes
    obtain ⟨holds, fails⟩ := List.forall_mem_append.mp others
    have arm : 0 < indent + 2 := Nat.succ_pos _
    have prelude : ∀ line ∈ (node.prelude Variable.text).toList.map (Line.statement (indent + 2)),
        P line := by
      intro line member
      obtain ⟨content, opens, rfl⟩ := List.mem_map.mp member
      exact (own _ arm).2 content (Option.mem_toList.mp opens)
    refine List.forall_mem_append.mpr ⟨List.forall_mem_append.mpr
      ⟨(own indent inside).1, ihFirst holds arm⟩, List.forall_mem_cons.mpr
        ⟨between _ (Nat.succ_pos _) _ (by simp), List.forall_mem_append.mpr
          ⟨List.forall_mem_append.mpr ⟨prelude, ihSecond fails arm⟩, ?_⟩⟩⟩
    exact List.forall_mem_cons.mpr ⟨between _ (Nat.succ_pos _) _ (by simp),
      List.forall_mem_singleton.mpr (between _ inside _ (by simp))⟩

theorem Node.prelude_legible (node : Node) :
    ∀ content ∈ node.prelude Variable.text, Source.legible content := by
  unfold Node.prelude
  cases node.kind with
  | loop => simp [Source.legible, Variable.plain_text]
  | _ => simp

theorem Chain.lines_legible (g : Graph) (chain : Chain) {indent : Nat} (inside : 0 < indent) :
    ∀ line ∈ chain.lines g indent, Source.legibleLine line :=
  chain.forall_lines g
    (fun _ _ => by simp [Source.legibleLine, Source.legible])
    (fun _ _ => Node.plain_labelName)
    (fun node _ indent _ => ⟨node.lines_legible g indent, node.prelude_legible⟩) inside

theorem Layout.lines_legible (g : Graph) (layout : Layout) :
    ∀ line ∈ layout.lines g, Source.legibleLine line := by
  have labels : ∀ trigger : Trigger, plain trigger.label = true := by
    intro trigger
    cases trigger <;> decide
  intro line member
  obtain ⟨⟨trigger, chain⟩, -, inside⟩ := List.mem_flatMap.mp member
  rcases List.mem_cons.mp inside with rfl | inside
  · exact labels trigger
  · exact chain.lines_legible g Nat.one_pos line inside

end NodeScript
