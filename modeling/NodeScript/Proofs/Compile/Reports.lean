import NodeScript.Proofs.Compile.Success

/-!
What lowering reports, in closed form. Each construct adds its own notes behind the earlier events,
whatever the draft: a warning for an output with several links, for an input that cannot be read,
and for a function that is not registered where names are checked. Questions about what is reported
are questions about these lists.
-/
namespace NodeScript

namespace Job

/-- What is told of an output that is followed. -/
def linkNotes (job : Job) (node : Uuid) (pin : UInt16) : List Event :=
  if 1 < (job.graph.linksFrom node pin).length then [.severalLinks job.asset pin node] else []

/-- What is told of a Value input that is read. -/
def inputNotes (job : Job) (node : Uuid) (pin : UInt16) : List Event :=
  match job.graph.linkInto? node pin with
  | none => []
  | some link =>
    match job.graph.node? link.fromNode with
    | none => []
    | some source =>
      if source.type = .value ∨ source.type = .function ∧ link.fromPin = 1 then []
      else [.unreadableInput job.asset pin node source.type]

/-- What is told of the function that a node calls. -/
def nameNotes (job : Job) (node : Node) : List Event :=
  match job.functions, node.kind with
  | some registry, .function name _ =>
    if registry.contains (crc32 name) then []
    else [.unregisteredName name (crc32 name) node.uuid]
  | _, _ => []

/-- What is told of the Value inputs of a node. -/
def readNotes (job : Job) (node : Node) : List Event :=
  node.type.valueInputs.flatMap (job.inputNotes node.uuid)

end Job

/-- What is told of a chain. -/
def Chain.notes (job : Job) : Chain → List Event
  | .stop | .jump _ => []
  | .step node rest =>
    job.readNotes node ++ (job.nameNotes node ++ (job.linkNotes node.uuid 0 ++ rest.notes job))
  | .branch node first second =>
    job.readNotes node ++ (job.linkNotes node.uuid 0 ++
      (first.notes job ++ (job.linkNotes node.uuid 1 ++ second.notes job)))

/-- What is told of an entry that is lowered. -/
def Job.entryNotes (job : Job) (entry : Trigger × Chain) : List Event :=
  job.linkNotes job.graph.start.uuid entry.1.pin ++
    .lowering entry.1 job.asset :: entry.2.notes job

namespace Draft

variable {job : Job} {d : Draft}

theorem events_report (event : Event) :
    (d.report event).events.toList = d.events.toList ++ [event] := Array.toList_push

theorem events_checkSlots (node : Uuid) : (d.checkSlots job node).events = d.events := by
  unfold checkSlots
  split
  · rfl
  · split <;> rfl

theorem events_noteLinks (node : Uuid) (pin : UInt16) :
    (d.noteLinks job node pin).events.toList = d.events.toList ++ job.linkNotes node pin := by
  unfold noteLinks Job.linkNotes
  split
  · exact events_report _
  · exact (List.append_nil _).symm

theorem events_resolveInput (node : Uuid) (pin : UInt16) :
    (d.resolveInput job node pin).1.events.toList =
      d.events.toList ++ job.inputNotes node pin := by
  unfold resolveInput Job.inputNotes
  cases job.graph.linkInto? node pin with
  | none => exact (List.append_nil _).symm
  | some link =>
    dsimp only
    cases job.graph.node? link.fromNode with
    | none => exact (List.append_nil _).symm
    | some source =>
      dsimp only
      rw [Node.type]
      cases source.kind with
      | value number => exact (List.append_nil _).symm
      | _ =>
        simp only [NodeKind.type, reduceCtorEq, false_or]
        split
        · exact (List.append_nil _).symm
        · exact events_report _

theorem events_resolveInputs (node : Uuid) (pins : List UInt16) :
    (d.resolveInputs job node pins).1.events.toList =
      d.events.toList ++ pins.flatMap (job.inputNotes node) := by
  induction pins generalizing d with
  | nil => exact (List.append_nil _).symm
  | cons pin rest ih =>
    refine ih.trans ?_
    rw [List.flatMap_cons, ← List.append_assoc]
    exact congrArg (· ++ _) (events_resolveInput node pin)

theorem events_materialize (operand : Operand) (name : String) :
    (d.materialize operand name).1.events = d.events := by
  cases operand <;> rfl

theorem events_noteName {node : Node} {name : String} {argument : UInt32}
    (kind : node.kind = .function name argument) :
    (d.noteName job node.uuid name).events.toList = d.events.toList ++ job.nameNotes node := by
  unfold noteName Job.nameNotes
  rw [kind]
  cases job.functions with
  | none => exact (List.append_nil _).symm
  | some registry =>
    dsimp only
    split
    · exact (List.append_nil _).symm
    · exact events_report _

theorem events_lowerStep (node : Node) :
    (d.lowerStep job node).events.toList = d.events.toList ++ job.nameNotes node := by
  cases kind : node.kind with
  | function name argument =>
    rw [lowerStep, kind]
    exact events_noteName kind
  | _ =>
    have silent : job.nameNotes node = [] := by
      rw [Job.nameNotes, kind]
      cases job.functions <;> rfl
    rw [lowerStep, kind, silent]
    exact (List.append_nil _).symm

theorem events_lowerHead (node : Node) (inputs : List Operand) :
    (d.lowerHead node inputs).1.events = d.events := by
  unfold lowerHead
  cases node.kind with
  | compare op =>
    exact (events_materialize _ "t_b").trans (events_materialize _ "t_a")
  | _ => rfl

theorem events_stepped (node : Node) :
    (d.stepped job node).events.toList =
      d.events.toList ++ job.readNotes node ++ job.nameNotes node ++ job.linkNotes node.uuid 0 := by
  rw [stepped, events_noteLinks]
  refine congrArg (· ++ _) ?_
  refine (congrArg Array.toList (events_checkSlots _)).trans ((events_lowerStep node).trans ?_)
  exact congrArg (· ++ _) (events_resolveInputs node.uuid _)

theorem events_entered (node : Node) :
    (d.entered job node).events.toList =
      d.events.toList ++ job.readNotes node ++ job.linkNotes node.uuid 0 := by
  rw [entered, events_noteLinks, events_checkSlots, headed, events_lowerHead]
  exact congrArg (· ++ _) (events_resolveInputs node.uuid _)

theorem events_turned (held : Draft) (node : Node) :
    (d.turned held job node).events.toList = held.events.toList ++ job.linkNotes node.uuid 1 :=
  events_noteLinks _ _

/-- What lowering a chain reports. -/
theorem events_lowerChain (chain : Chain) (d : Draft) :
    (lowerChain job chain d).events.toList = d.events.toList ++ chain.notes job := by
  induction chain generalizing d with
  | stop | jump => exact (List.append_nil _).symm
  | step node rest ih =>
    rw [lowerChain_step, ih, events_stepped, Chain.notes]
    simp only [List.append_assoc]
  | branch node first second ihFirst ihSecond =>
    rw [lowerChain_branch]
    refine (ihSecond _).trans ?_
    rw [events_turned, ihFirst, events_entered, Chain.notes]
    simp only [List.append_assoc]

/-- What lowering all entries reports. -/
theorem events_lowerEntries (layout : Layout) (d : Draft) (entries : Entries) :
    (lowerEntries job layout d entries).1.events.toList =
      d.events.toList ++ layout.flatMap job.entryNotes := by
  induction layout generalizing d entries with
  | nil => exact (List.append_nil _).symm
  | cons entry rest ih =>
    obtain ⟨trigger, chain⟩ := entry
    have entered : (d.enterTrigger job trigger).events.toList =
        d.events.toList ++ job.linkNotes job.graph.start.uuid trigger.pin ++
          [.lowering trigger job.asset] :=
      (events_report _).trans (congrArg (· ++ _) (events_noteLinks _ _))
    rw [lowerEntries_cons, ih, events_lowerChain, entered, List.flatMap_cons, Job.entryNotes]
    simp only [List.append_assoc, List.singleton_append]

end Draft

/-- What a compilation that succeeds reports: its stages, with the notes of each entry between. -/
theorem Job.events_of_compile {job : Job} {uuid : Uuid} {script : Script}
    (compiled : (job.compile uuid).value = .ok script) {layout : Layout}
    (success : Chain.ofGraph job.graph job.asset = .ok layout) :
    (job.compile uuid).events =
      .compiling job.asset job.graph.nodes.length job.graph.links.length ::
        layout.flatMap job.entryNotes ++
        [.compiled job.asset script.program.code.size script.program.globals.size
          script.stackSize] := by
  obtain ⟨layout', success', quiet, rfl⟩ := Job.compile_eq_ok compiled
  obtain rfl := Except.ok.inj (success.symm.trans success')
  have lowered := @Draft.events_lowerEntries job layout .empty .empty
  simp only [Job.compile, success, quiet]
  rw [Job.draft, lowered]
  rfl

end NodeScript
