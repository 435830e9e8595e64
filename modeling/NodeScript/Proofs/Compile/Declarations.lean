import NodeScript.Proofs.Compile.Legible
import NodeScript.Proofs.Compile.Success
import NodeScript.Proofs.Source.FileScope

/-!
What the source of a unit defines at file scope. Labels and indented lines define nothing, so the
names are those of the user functions that the unit calls, of its state structure and of its own
function.
-/
namespace NodeScript

open Source (OneLine IsName Defines definition? definition?_eq_none definition?_introduced
  oneLine_append oneLine_hex64 oneLine_hex32 oneLine_toString)

/-- The texts that a statement is put together from. -/
def Statement.texts : Statement → List String
  | text content | comment content => [content]
  | constant type name _ => [type, name]
  | sleep operand | removeObject operand | increment operand | reset operand
  | ifBelow operand _ | goto operand => [operand]
  | sendEvent object eventType value => [object, eventType, value]
  | call result function argument => [result, function, argument]
  | ifCompare lhs _ rhs => [lhs, rhs]
  | openBlock | closeBlock | orElse | leave => []

theorem Statement.oneLine_lines (statement : Statement)
    (whole : ∀ text ∈ statement.texts, OneLine text) : ∀ line ∈ statement.lines, OneLine line := by
  have symbol (op : CompareOp) : OneLine op.symbol := by cases op <;> decide
  have numeral (n : Nat) : OneLine (toString n) := (Source.isName_repr n).oneLine
  cases statement with
  | openBlock | closeBlock | orElse | leave => decide
  | text content => exact whole
  | _ =>
    simp only [texts, lines, List.forall_mem_cons, List.not_mem_nil, false_imp_iff, implies_true,
      and_true, oneLine_append] at whole ⊢
    simp only [whole, symbol, numeral, oneLine_toString, and_true, true_and]
    decide

/-- Lines that stand within a function: labels of nodes and entries, and what is indented. -/
def Line.Inner : Line → Prop
  | .label name => (name.toList.head? = some 'n' ∨ name.toList.head? = some 'e') ∧ OneLine name
  | .statement indent content => 0 < indent ∧ ∀ text ∈ content.texts, OneLine text

theorem Line.Inner.render {line : Line} (inner : line.Inner) :
    ∀ text ∈ line.render, Source.Silent text := by
  intro text member
  cases line with
  | label name =>
    obtain ⟨first, whole⟩ := inner
    obtain rfl := List.mem_singleton.mp member
    refine ⟨(oneLine_append _ _).mpr ⟨whole, by decide⟩, definition?_eq_none ?_⟩
    rcases first with first | first <;> simp [first]
  | statement indent content =>
    obtain ⟨inside, whole⟩ := inner
    obtain ⟨line, written, rfl⟩ := List.mem_map.mp member
    obtain ⟨steps, rfl⟩ : ∃ steps, indent = steps + 1 := ⟨indent - 1, by omega⟩
    refine ⟨(oneLine_append _ _).mpr
      ⟨Source.oneLine_indentation _, content.oneLine_lines whole line written⟩,
      definition?_eq_none ?_⟩
    simp [indentation, Nat.mul_succ, List.replicate_succ]

namespace Variable

theorem isName_name (v : Variable) : IsName v.name := by
  cases v with
  | counter node | result node =>
    exact (Source.isName_append _ _).mpr ⟨by decide, Source.isName_hex64 node⟩
  | function hash => exact (Source.isName_append _ _).mpr ⟨by decide, Source.isName_hex32 hash⟩

theorem oneLine_text (v : Variable) : OneLine v.text := by
  rcases v.text_cases with same | ⟨-, -, same⟩ <;> rw [same]
  · exact (oneLine_append _ _).mpr ⟨by decide, v.isName_name.oneLine⟩
  · exact v.isName_name.oneLine

end Variable

theorem Input.oneLine_text (input : Input) {name : String} (whole : OneLine name) :
    OneLine (input.text Variable.text name) := by
  cases input with
  | constant value => exact whole
  | result node => exact Variable.oneLine_text _

namespace Node

variable (g : Graph) (node : Node) {indent : Nat}

theorem inner_labelName (uuid : Uuid) : (Line.label (Assembly.labelName uuid)).Inner := by
  refine ⟨.inl (by simp [Assembly.labelName]), ?_⟩
  exact (oneLine_append _ _).mpr ⟨by decide, oneLine_hex64 uuid⟩

theorem statements_inner (inside : 0 < indent) :
    ∀ line ∈ node.statements g Variable.text indent, line.Inner := by
  have lhs := @Input.oneLine_text (g.input node.uuid 1) "t_a" (by decide)
  have rhs := @Input.oneLine_text (g.input node.uuid 2) "t_b" (by decide)
  unfold statements
  cases node.kind <;> simp +decide [Line.Inner, Statement.texts, inside, lhs, rhs,
    Variable.oneLine_text]

theorem lines_inner (titled : OneLine node.kind.title) (inside : 0 < indent) :
    ∀ line ∈ node.lines g Variable.text indent, line.Inner := by
  have opening : ∀ line ∈ node.opening g indent, line.Inner := by
    refine List.forall_mem_append.mpr ⟨?_, ?_⟩
    · split
      · exact List.forall_mem_singleton.mpr (inner_labelName _)
      · simp
    · simp [Line.Inner, Statement.texts, inside, titled]
  have constants : ∀ line ∈ (node.constants g).map
      (fun c => Line.statement (indent + 1) (.constant c.type c.name c.value)), line.Inner := by
    have known : ∀ word ∈ constantWords, OneLine word := by decide
    intro line member
    obtain ⟨constant, bound, rfl⟩ := List.mem_map.mp member
    obtain ⟨type, name⟩ := node.constants_words g constant bound
    simp [Line.Inner, Statement.texts, known _ type, known _ name]
  exact List.forall_mem_append.mpr ⟨List.forall_mem_append.mpr ⟨opening, constants⟩,
    node.statements_inner g (Nat.succ_pos _)⟩

end Node

theorem Node.prelude_inner (node : Node) {indent : Nat} (inside : 0 < indent) :
    ∀ content ∈ node.prelude Variable.text, (Line.statement indent content).Inner := by
  unfold Node.prelude
  cases node.kind <;> simp [Line.Inner, Statement.texts, Variable.oneLine_text, inside]

theorem Chain.lines_inner (g : Graph) (chain : Chain)
    (titled : ∀ node ∈ chain.nodes, OneLine node.kind.title) {indent : Nat} (inside : 0 < indent) :
    ∀ line ∈ chain.lines g indent, line.Inner :=
  chain.forall_lines g
    (fun _ inside => by simp [Line.Inner, Statement.texts, inside])
    (fun _ inside uuid => ⟨inside, List.forall_mem_singleton.mpr (Node.inner_labelName uuid).2⟩)
    (fun node member _ inside =>
      ⟨node.lines_inner g (titled node member) inside, node.prelude_inner inside⟩) inside

theorem Layout.lines_inner (g : Graph) (layout : Layout)
    (titled : ∀ node ∈ layout.nodes, OneLine node.kind.title) :
    ∀ line ∈ layout.lines g, line.Inner := by
  intro line member
  obtain ⟨⟨trigger, chain⟩, entry, inside⟩ := List.mem_flatMap.mp member
  rcases List.mem_cons.mp inside with rfl | inside
  · refine ⟨.inr ?_, ?_⟩ <;> cases trigger <;> decide
  · refine chain.lines_inner g (fun node placed => titled node ?_) Nat.one_pos line inside
    exact List.mem_flatMap.mpr ⟨_, entry, placed⟩

/-- The lines of a graph whose titles have no line breaks stand within a function. -/
theorem Chain.LaysAll.lines_inner {g : Graph} {layout : Layout} {after : List Uuid}
    (laid : Chain.LaysAll g Trigger.all [] layout after)
    (titled : ∀ node ∈ g.nodes, OneLine node.kind.title) : ∀ line ∈ layout.lines g, line.Inner :=
  Layout.lines_inner g layout fun node member =>
    titled node (Graph.node?_eq_some (laid.node_mem node member).1).1

namespace Script

/-- The names of the user functions that a script binds. -/
def references (script : Script) : List String :=
  (script.program.globals.toList.filter fun g => !g.kind.isInstanceScoped).map (·.name)

/-- The names that carry the identifier of a script: its state structure, if it has one, and its
function. -/
def ownNames (script : Script) : List String :=
  (if script.hasInstanceState then [script.function ++ "_state"] else []) ++ [script.function]

/-- The names that the source of a script defines at file scope. -/
def fileScope (script : Script) : List String := script.references ++ script.ownNames

end Script

/-- The declaration of a variable at file scope. -/
theorem Variable.defines_fileLine (v : Variable) (file : v.kind.isInstanceScoped = false) :
    OneLine v.declaration.fileLine ∧ definition? v.declaration.fileLine.toList = some v.name := by
  cases v with
  | counter | result => cases file
  | function hash =>
    have name := (Variable.function hash).isName_name
    have letters : (Variable.function hash).declaration.fileLine =
        "UserFunc " ++ (Variable.function hash).name ++
          (" = get_function(0x" ++ hex32 hash ++ ");") :=
      String.toList_inj.mp (by simp [Declaration.fileLine, declaration])
    rw [letters]
    refine ⟨?_, definition?_introduced (by decide) name (by simp +decide)⟩
    simp +decide [name.oneLine, oneLine_hex32]

namespace Assembly

variable {a : Assembly} {vars : List Variable} {uuid : Uuid} {name : String} {entries : Entries}

theorem defines_fileLines (declared : a.globals = Variable.table vars) :
    Defines a.fileLines
      (((a.globals.map (·.global)).toList.filter fun g => !g.kind.isInstanceScoped).map (·.name))
    := by
  rw [fileLines, Array.toList_map, List.filter_map, List.map_map, declared]
  refine Defines.map fun declaration member => ?_
  obtain ⟨known, file⟩ := List.mem_filter.mp member
  obtain ⟨v, -, rfl⟩ := List.mem_map.mp known
  exact v.defines_fileLine (by simpa [Variable.declaration] using file)

theorem source_toScript (a : Assembly) : (a.toScript uuid name entries).source =
    String.join ((a.sourceLines uuid name entries).map (· ++ "\n")) := by
  rw [toScript, source]

theorem isEmpty_stateLines (a : Assembly) :
    a.stateLines.isEmpty = !(a.toScript uuid name entries).hasInstanceState := by
  rw [Bool.eq_iff_iff, toScript, Script.hasInstanceState]
  simpa [stateLines] using Array.forall_mem_iff_forall_getElem

/-- The names of functions and state structures. -/
theorem isName_functionName (uuid : Uuid) : IsName (functionName uuid) :=
  (Source.isName_append _ _).mpr ⟨by decide, Source.isName_hex64 uuid⟩

theorem plain_functionName (uuid : Uuid) : Source.plain (functionName uuid) = true :=
  Source.plain_append (by decide) (Source.plain_hex64 uuid)

/-- The state structure is defined where its fields end. -/
theorem defines_stateType (declared : a.globals = Variable.table vars) (uuid : Uuid) :
    Defines (["typedef struct \x7b"] ++ a.stateLines.map ("  " ++ ·) ++
        ["\x7d " ++ functionName uuid ++ "_state;", ""]) [functionName uuid ++ "_state"] := by
  have function := isName_functionName uuid
  have fields : ∀ line ∈ a.stateLines.map ("  " ++ ·), Source.Silent line := by
    intro line member
    rw [stateLines, List.map_map, declared] at member
    obtain ⟨declaration, kept, rfl⟩ := List.mem_map.mp member
    obtain ⟨v, -, rfl⟩ := List.mem_map.mp (List.mem_filter.mp kept).1
    have whole : OneLine v.declaration.fieldLine := by
      have name := v.isName_name.oneLine
      cases v <;> simp +decide [Declaration.fieldLine, Variable.declaration, name]
    exact ⟨(oneLine_append _ _).mpr ⟨by decide, whole⟩, definition?_eq_none (by simp)⟩
  have last : Defines ["\x7d " ++ functionName uuid ++ "_state;", ""]
      [functionName uuid ++ "_state"] := by
    refine .cons (by simp +decide [function.oneLine]) ?_ (.silent (by decide))
    have named := @definition?_introduced "\x7d " (functionName uuid ++ "_state") ";" (by decide)
      ((Source.isName_append _ _).mpr ⟨function, by decide⟩) (by decide)
    rwa [String.append_assoc, String.append_assoc, ← String.append_assoc] at named
  exact .skip (by decide) ((Defines.silent fields).append last)

/-- Without instance-scoped variables there is no state structure. -/
theorem defines_state (declared : a.globals = Variable.table vars) :
    Defines (if a.stateLines.isEmpty then [] else
        ["typedef struct \x7b"] ++ a.stateLines.map ("  " ++ ·) ++
          ["\x7d " ++ functionName uuid ++ "_state;", ""])
      (if (a.toScript uuid name entries).hasInstanceState then [functionName uuid ++ "_state"]
        else []) := by
  have same := @isEmpty_stateLines uuid name entries a
  cases instances : (a.toScript uuid name entries).hasInstanceState with
  | false =>
    rw [if_pos (by simp [same, instances])]
    exact .silent nofun
  | true =>
    rw [if_neg (by simp [same, instances])]
    exact defines_stateType declared uuid

theorem silent_statePointer (a : Assembly) (uuid : Uuid) :
    Defines (if a.stateLines.isEmpty then [] else
      ["  " ++ functionName uuid ++ "_state* state = (" ++ functionName uuid ++
        "_state*)inst->state;"]) [] := by
  split
  · exact .silent nofun
  · refine .silent (List.forall_mem_singleton.mpr ⟨?_, definition?_eq_none (by simp)⟩)
    simp +decide [(isName_functionName uuid).oneLine]

theorem silent_cases (entries : Entries) :
    Defines ((Trigger.all.filter fun trigger => (entries.get trigger).isSome).map
      fun trigger => "    case " ++ trigger.constant ++ ": goto " ++ trigger.label ++ ";") [] := by
  refine .silent fun line member => ?_
  obtain ⟨trigger, -, rfl⟩ := List.mem_map.mp member
  cases trigger <;> decide

theorem silent_bodyLines (inner : ∀ line ∈ a.lines.toList, line.Inner) :
    Defines a.bodyLines [] := by
  refine .silent fun text member => ?_
  obtain ⟨line, member, written⟩ := List.mem_flatMap.mp member
  exact (inner line member).render text written

/-- What the lines of a unit define. -/
theorem defines_sourceLines (declared : a.globals = Variable.table vars)
    (inner : ∀ line ∈ a.lines.toList, line.Inner) (named : OneLine name) :
    Defines (a.sourceLines uuid name entries) (a.toScript uuid name entries).fileScope := by
  have function := isName_functionName uuid
  have digits := oneLine_hex64 uuid
  have header : Defines ["// '" ++ name ++ "' (" ++ hex64 uuid ++ ")"] [] :=
    .silent (List.forall_mem_singleton.mpr
      ⟨by simp +decide [named, digits], definition?_eq_none (by simp)⟩)
  have gap : Defines (if a.fileLines.isEmpty then [] else [""]) [] := by
    split <;> exact .silent (by decide)
  have head : Defines ["void " ++ functionName uuid ++ "(Instance* inst, Trigger trigger) \x7b"]
      [functionName uuid] := by
    refine .cons (by simp +decide [function.oneLine]) ?_ (.silent nofun)
    exact definition?_introduced (by decide) function (by decide)
  have choice : Defines ["  switch (trigger) \x7b"] [] := .silent (by decide)
  have default : Defines ["    default: return;", "  \x7d"] [] := .silent (by decide)
  have last : Defines ["\x7d"] [] := .silent (by decide)
  have declarations := ((header.append (defines_fileLines declared)).append gap).append
    (@defines_state _ _ uuid name entries declared)
  have entry := (((declarations.append head).append (silent_statePointer a uuid)).append
    choice).append (silent_cases entries)
  have all := ((entry.append default).append (silent_bodyLines inner)).append last
  simp only [List.nil_append, List.append_nil] at all
  rw [Script.fileScope, Script.ownNames, ← List.append_assoc]
  exact all

end Assembly

/-- What is known of the source of a compiled script: its variables are told apart, and what the
source defines is told by the rest of the script. -/
structure Script.Declares (script : Script) : Prop where
  function : script.function = functionName script.uuid
  globals : ∃ vars : List Variable, vars.Nodup ∧
    script.program.globals.toList = vars.map fun v => v.declaration.global
  source : ∀ rest : String, Source.definitions (script.source ++ rest) =
    script.fileScope ++ Source.definitions rest

/-- The source of a compiled script, where the name of the asset and the titles of nodes, which
comments repeat, have no line breaks. -/
theorem Job.declares_of_compile {job : Job} (formed : job.graph.WellFormed) {uuid : Uuid}
    {script : Script} (compiled : (job.compile uuid).value = .ok script) (named : OneLine job.asset)
    (titled : ∀ node ∈ job.graph.nodes, OneLine node.kind.title) : script.Declares := by
  obtain ⟨layout, after, -, laid, few, rfl⟩ := Job.laid_of_compile formed compiled
  obtain ⟨globals, lines⟩ := laid.drafted few
  have inner : ∀ line ∈ (job.draft layout).1.assembly.lines.toList, line.Inner :=
    lines ▸ laid.lines_inner titled
  refine ⟨rfl, ⟨_, Layout.nodup_vars job.graph layout, ?_⟩, fun rest => ?_⟩
  · simp [Assembly.toScript, globals, Variable.table]
  · rw [Assembly.source_toScript]
    exact (Assembly.defines_sourceLines globals inner named).definitions rest

end NodeScript
