import NodeScript.Proofs.Compile.Labels
import NodeScript.Proofs.Compile.Reports
import NodeScript.Proofs.Graph.Histories

/-!
Graphs that were made by editing compile without complaint. Everything that lowering would warn of
is excluded by what edits keep: a Logic output drives one node, so none is followed among several
links; links join pins of one kind, so a Value input reads a number or the result of a call; and so
every jump finds its label. What is reported are the stages of the compilation and nothing else.
-/
namespace NodeScript

namespace Graph

variable {g : Graph}

/-- A Value output is the one of a Value node, or the second one of a Function node. -/
theorem value_output {uuid : Uuid} {pin : UInt16}
    (value : g.pinKind? .output uuid pin = some .value) :
    ∃ source, g.node? uuid = some source ∧ source.uuid = uuid ∧
      ((∃ number, source.kind = .value number) ∨
        ∃ name argument, source.kind = .function name argument ∧ pin = 1) := by
  cases found : g.node? uuid with
  | none => simp [pinKind?, found] at value
  | some source =>
    refine ⟨source, rfl, (node?_eq_some found).2, ?_⟩
    simp only [pinKind?, found, Option.bind_some, NodeType.pin?, NodeType.pins,
      Option.map_eq_some_iff, Node.type] at value
    obtain ⟨found, inside, kind⟩ := value
    cases described : source.kind with
    | value number => exact .inl ⟨number, rfl⟩
    | function name argument =>
      rw [described] at inside
      refine .inr ⟨name, argument, rfl, UInt16.toNat_inj.mp ?_⟩
      rcases index : pin.toNat with _ | _ | more
      · rw [index] at inside
        cases inside
        cases kind
      · rfl
      · rw [index] at inside
        cases inside
    | _ =>
      have logic : ∀ output ∈ source.kind.type.outputs, output.kind = .logic := by
        rw [described]
        simp [NodeKind.type, NodeType.outputs]
      cases kind.symm.trans (logic found (List.mem_of_getElem? inside))

end Graph

/-- What a Value input of a graph without mixed links reads. -/
theorem Graph.Typed.resolveInput {job : Job} (typed : job.graph.Typed) {node : Uuid}
    {pin : UInt16} (value : job.graph.pinKind? .input node pin = some .value) {link : Link}
    (linked : job.graph.linkInto? node pin = some link) :
    ∃ source, job.graph.node? link.fromNode = some source ∧
      ((∃ number, source.kind = .value number ∧
          ∀ d : Draft, d.resolveInput job node pin = (d, .constant (Int64.ofNat number.toNat))) ∨
        ∃ name argument, source.kind = .function name argument ∧ link.fromPin = 1 ∧
          ∀ d : Draft, d.resolveInput job node pin =
            ((d.declareResult source.uuid).1, .global (d.declareResult source.uuid).2)) := by
  have arrives := List.find?_some linked
  simp only [Bool.and_eq_true, beq_iff_eq] at arrives
  obtain ⟨rfl, rfl⟩ := arrives
  rw [← typed link (List.mem_of_find?_eq_some linked)] at value
  obtain ⟨source, found, same, described⟩ := Graph.value_output value
  refine ⟨source, found, ?_⟩
  rcases described with ⟨number, kind⟩ | ⟨name, argument, kind, second⟩
  · exact .inl ⟨number, kind, fun d => by simp only [Draft.resolveInput, linked, found, kind]⟩
  · refine .inr ⟨name, argument, kind, second, fun d => ?_⟩
    simp [Draft.resolveInput, linked, found, kind, second, NodeKind.type, same]

/-- The Value inputs of a node of the graph are such. -/
theorem Graph.pinKind?_valueInputs {g : Graph} {node : Node}
    (found : g.node? node.uuid = some node) :
    ∀ pin ∈ node.type.valueInputs, g.pinKind? .input node.uuid pin = some .value := by
  intro pin member
  rw [pinKind?, found, Option.bind_some]
  cases type : node.type with
  | compare =>
    have pins : NodeType.compare.valueInputs = [1, 2] := rfl
    rw [type, pins] at member
    rcases List.mem_cons.mp member with rfl | second
    · rfl
    · obtain rfl := List.mem_singleton.mp second
      rfl
  | _ =>
    rw [type] at member
    cases member

/-! What is told -/

section

variable {job : Job}

theorem Job.linkNotes_eq_nil {node : Uuid} {pin : UInt16}
    (single : (job.graph.linksFrom node pin).length ≤ 1) : job.linkNotes node pin = [] :=
  if_neg (Nat.not_lt.mpr single)

theorem Job.inputNotes_eq_nil (typed : job.graph.Typed) {node : Uuid} {pin : UInt16}
    (value : job.graph.pinKind? .input node pin = some .value) : job.inputNotes node pin = [] := by
  unfold inputNotes
  cases linked : job.graph.linkInto? node pin with
  | none => rfl
  | some link =>
    obtain ⟨source, found, ⟨number, kind, -⟩ | ⟨name, argument, kind, second, -⟩⟩ :=
      typed.resolveInput value linked
    · simp [found, Node.type, kind, NodeKind.type]
    · simp [found, Node.type, kind, NodeKind.type, second]

theorem Job.readNotes_eq_nil (typed : job.graph.Typed) {node : Node}
    (found : job.graph.node? node.uuid = some node) : job.readNotes node = [] := by
  rw [readNotes, List.flatMap_eq_nil_iff]
  exact fun pin member =>
    inputNotes_eq_nil typed (Graph.pinKind?_valueInputs found pin member)

theorem Job.nameNotes_eq_nil (unchecked : job.functions = none) (node : Node) :
    job.nameNotes node = [] := by
  rw [nameNotes, unchecked]

/-- Nothing is told of a chain of a tidy graph. -/
theorem Chain.notes_eq_nil (tidy : job.graph.Tidy) (unchecked : job.functions = none)
    {placed after : List Uuid} {target : Option Uuid} {chain : Chain}
    (laid : Chain.Lays job.graph placed target chain after) : chain.notes job = [] := by
  induction laid with
  | stop | jump => rfl
  | @step placed after uuid node rest fresh found entered single next ih =>
    obtain ⟨-, rfl⟩ := Graph.node?_eq_some found
    obtain ⟨first, -⟩ := Graph.logic_output found entered
    rw [notes, Job.readNotes_eq_nil tidy.typed found, Job.nameNotes_eq_nil unchecked,
      Job.linkNotes_eq_nil (tidy.logic_output _ _ first), ih]
    rfl
  | @branch placed middle after uuid node first second fresh found entered double holds fails
      ihFirst ihSecond =>
    obtain ⟨-, rfl⟩ := Graph.node?_eq_some found
    obtain ⟨one, two⟩ := Graph.logic_output found entered
    rw [notes, Job.readNotes_eq_nil tidy.typed found,
      Job.linkNotes_eq_nil (tidy.logic_output _ _ one),
      Job.linkNotes_eq_nil (tidy.logic_output _ _ (two double)), ihFirst, ihSecond]
    rfl

/-- Of the entries of a tidy graph it is told that they are lowered. -/
theorem Job.entryNotes_tidy (formed : job.graph.WellFormed) (tidy : job.graph.Tidy)
    (unchecked : job.functions = none) {triggers : List Trigger} {placed after : List Uuid}
    {layout : Layout} (laid : Chain.LaysAll job.graph triggers placed layout after) :
    layout.flatMap job.entryNotes = layout.map fun entry => .lowering entry.1 job.asset := by
  induction laid with
  | done => rfl
  | skip unlinked others ih => exact ih
  | @lead placed middle after trigger rest target chain layout linked laid others ih =>
    have single := tidy.logic_output _ _ (formed.logic_trigger trigger)
    rw [List.flatMap_cons, ih, entryNotes, linkNotes_eq_nil single,
      Chain.notes_eq_nil tidy unchecked laid]
    rfl

end

/-- The unit needs no more globals than slots can number. -/
def Job.HasSlots (job : Job) : Prop :=
  ∀ layout, Chain.ofGraph job.graph job.asset = .ok layout →
    (job.draft layout).1.assembly.globals.size ≤ 65535

/-- A graph of no more nodes than half a word can number has slots for its globals. -/
theorem Job.hasSlots_of_small {job : Job} (formed : job.graph.WellFormed)
    (small : job.graph.nodes.length ≤ 32767) : job.HasSlots := by
  intro layout success
  obtain ⟨layout', after, success', laid⟩ := Chain.ofGraph_success formed job.asset
  obtain rfl := Except.ok.inj (success.symm.trans success')
  have placed := laid.length_nodes_le
  have needed := Layout.length_vars_le job.graph layout
  rw [Job.draft, (Draft.lowerEntries_counts laid .empty .empty [] rfl rfl).1]
  simp only [Variable.table, List.size_toArray, List.length_map]
  rw [Layout.vars] at needed
  omega

/-- The stages of a compilation are all that is reported of a tidy graph. -/
theorem Job.compile_tidy {job : Job} (formed : job.graph.WellFormed) (tidy : job.graph.Tidy)
    (unchecked : job.functions = none) (slots : job.HasSlots) (uuid : Uuid) :
    ∃ layout after script, Chain.ofGraph job.graph job.asset = .ok layout ∧
      Chain.LaysAll job.graph Trigger.all [] layout after ∧
      (Layout.vars job.graph layout).length ≤ 65535 ∧
      (job.compile uuid).value = .ok script ∧
      (job.compile uuid).events =
        .compiling job.asset job.graph.nodes.length job.graph.links.length ::
          (layout.map fun entry => Event.lowering entry.1 job.asset) ++
          [.compiled job.asset script.program.code.size script.program.globals.size
            script.stackSize] := by
  obtain ⟨layout, after, success, laid⟩ := Chain.ofGraph_success formed job.asset
  have declared := (Draft.lowerEntries_counts laid .empty .empty [] rfl rfl).1
  have few : (Layout.vars job.graph layout).length ≤ 65535 := by
    have fits := slots layout success
    rw [Job.draft, declared] at fits
    simpa [Variable.table, Layout.vars] using fits
  have compiled := Job.compile_of_few success laid few uuid
  refine ⟨layout, after, _, success, laid, few, compiled, ?_⟩
  rw [Job.events_of_compile compiled success, Job.entryNotes_tidy formed tidy unchecked laid]

/-- In a graph whose links join pins of one kind every jump that is lowered has one label. -/
theorem Layout.count_label {g : Graph} {after : List Uuid} {layout : Layout}
    (formed : g.WellFormed) (typed : g.Typed)
    (laid : Chain.LaysAll g Trigger.all [] layout after) {indent : Nat} {name : String}
    (jumped : .statement indent (.goto name) ∈ layout.lines g) :
    (layout.lines g).count (.label name) = 1 := by
  have goes : name ∈ (layout.lines g).filterMap Line.goto? :=
    List.mem_filterMap.mpr ⟨_, jumped, rfl⟩
  rw [Layout.gotos_lines] at goes
  obtain ⟨uuid, target, rfl⟩ := List.mem_map.mp goes
  obtain ⟨entry, inside, jumps⟩ := List.mem_flatMap.mp target
  have labels := Layout.labels_lines g layout 0
  have one := Layout.count_marks laid (Layout.jumps_subset laid target)
  rw [if_pos (laid.one_lt_logicInDegree formed typed inside jumps), ← labels,
    List.count_filterMap] at one
  rw [← one, List.count]
  refine List.countP_congr fun line _ => ?_
  cases line <;> simp [Line.label?]

/-- A graph that was made by editing is well formed and tidy. -/
theorem Graph.Becomes.made {start : Uuid} {edits : List Edit} {g : Graph}
    (history : (Graph.single start).Becomes edits g) : g.WellFormed ∧ g.Tidy :=
  history.keeps (motive := fun g => g.WellFormed ∧ g.Tidy)
    ⟨Graph.wellFormed_single start, Graph.tidy_single start⟩
    fun valid drawn outcome =>
      ⟨valid.1.outcome drawn outcome, valid.2.outcome valid.1 drawn outcome⟩

/-- Graphs that were made by editing compile, whatever edits were made or refused, and nothing worth
a warning is reported when names are not checked. For no Logic output drives several nodes, each
linked input of a Compare node reads the number of a Value node or the last result of a Function
node, and each jump that is lowered has one label. -/
theorem edited_graphs_compile_cleanly {start : Uuid} {edits : List Edit} {g : Graph}
    (history : (Graph.single start).Becomes edits g) (asset : String) (uuid : Uuid)
    (slots : Job.HasSlots ⟨g, asset, none⟩) :
    let job : Job := ⟨g, asset, none⟩
    ∃ layout script, Chain.ofGraph g asset = .ok layout ∧
      (job.compile uuid).value = .ok script ∧
      script = (job.draft layout).1.assembly.toScript uuid asset (job.draft layout).2 ∧
      (∀ event ∈ (job.compile uuid).events, event.level.isProblem = false) ∧
      (∀ node pin, g.pinKind? .output node pin = some .logic → (g.linksFrom node pin).length ≤ 1) ∧
      (∀ node ∈ g.nodes, ∀ op, node.kind = .compare op →
        ∀ pin ∈ node.type.valueInputs, ∀ link, g.linkInto? node.uuid pin = some link →
          ∃ source, g.node? link.fromNode = some source ∧
            ((∃ number, source.kind = .value number ∧ ∀ d : Draft,
                d.resolveInput job node.uuid pin = (d, .constant (Int64.ofNat number.toNat))) ∨
              ∃ name argument, source.kind = .function name argument ∧ link.fromPin = 1 ∧
                ∀ d : Draft, d.resolveInput job node.uuid pin =
                  ((d.declareResult source.uuid).1, .global (d.declareResult source.uuid).2))) ∧
      ∀ indent name,
        .statement indent (.goto name) ∈ (job.draft layout).1.assembly.lines.toList →
        (job.draft layout).1.assembly.lines.toList.count (.label name) = 1 := by
  intro job
  obtain ⟨formed, tidy⟩ := history.made
  obtain ⟨layout, after, script, success, laid, few, compiled, reported⟩ :=
    @Job.compile_tidy job formed tidy rfl slots uuid
  obtain ⟨layout', success', -, same⟩ := Job.compile_eq_ok compiled
  obtain rfl := Except.ok.inj (success.symm.trans success')
  have lines := (laid.drafted few).2
  refine ⟨layout, script, success, compiled, same, ?_, tidy.logic_output, ?_, ?_⟩
  · rw [reported]
    intro event member
    simp only [List.cons_append, List.mem_cons, List.mem_append, List.mem_map, List.not_mem_nil,
      or_false] at member
    rcases member with rfl | ⟨entry, -, rfl⟩ | rfl <;> rfl
  · intro node member op kind pin input link linked
    exact @Graph.Typed.resolveInput job tidy.typed _ _
      (Graph.pinKind?_valueInputs (formed.node?_of_mem member) pin input) _ linked
  · intro indent name jumped
    rw [lines] at jumped ⊢
    exact Layout.count_label formed tidy.typed laid jumped

/-- The loop calls a function, whose last result is compared with a number; control is linked to a
Value input as well, which is refused. -/
theorem edited_graphs_compile_cleanly_counting :
    ∃ g script, (Graph.single 1).Becomes
        [.addDefault .loop .origin 2, .add (.function "f" 5) .origin 3,
          .addDefault .compare .origin 4, .add (.value 3) .origin 5, .link ⟨1, 0, 2, 0⟩,
          .link ⟨2, 0, 3, 0⟩, .link ⟨3, 0, 2, 0⟩, .link ⟨2, 1, 4, 0⟩, .link ⟨3, 1, 4, 1⟩,
          .link ⟨5, 0, 4, 2⟩, .link ⟨1, 1, 4, 1⟩] g ∧
      Job.HasSlots ⟨g, "counting", none⟩ ∧ g.links.length = 6 ∧
      (Job.compile ⟨g, "counting", none⟩ 9).value = .ok script ∧
      ∀ event ∈ (Job.compile ⟨g, "counting", none⟩ 9).events, event.level.isProblem = false := by
  have placed := Graph.Becomes.edited (.add (.value 3) .origin 5)
    (.edited (.addDefault .compare .origin 4)
      (.edited (.add (.function "f" 5) .origin 3)
        (.edited (.addDefault .loop .origin 2) (.unedited (g := Graph.single 1))
          (Graph.draws_of_room (by decide +kernel) _))
        (Graph.draws_of_room (by decide +kernel) _))
      (Graph.draws_of_room (by decide +kernel) _))
    (Graph.draws_of_room (by decide +kernel) _)
  have history := Graph.Becomes.edited (.link ⟨1, 1, 4, 1⟩)
    (.edited (.link ⟨5, 0, 4, 2⟩) (.edited (.link ⟨3, 1, 4, 1⟩) (.edited (.link ⟨2, 1, 4, 0⟩)
      (.edited (.link ⟨3, 0, 2, 0⟩) (.edited (.link ⟨2, 0, 3, 0⟩) (.edited (.link ⟨1, 0, 2, 0⟩)
        placed trivial) trivial) trivial) trivial) trivial) trivial) trivial
  have slots := @Job.hasSlots_of_small ⟨_, "counting", none⟩ history.made.1 (by decide +kernel)
  obtain ⟨layout, script, -, compiled, -, clean, -⟩ :=
    edited_graphs_compile_cleanly history "counting" 9 slots
  exact ⟨_, script, history, slots, by decide +kernel, compiled, clean⟩

/-- An output that is not a Logic output may drive several inputs, as here the one number that is
compared with itself. -/
theorem value_output_drives_two_inputs :
    ∃ g, (Graph.single 1).Becomes
        [.add (.value 3) .origin 2, .addDefault .compare .origin 3, .link ⟨2, 0, 3, 1⟩,
          .link ⟨2, 0, 3, 2⟩] g ∧
      Job.HasSlots ⟨g, "fan", none⟩ ∧
      ¬ ∀ node pin, (g.linksFrom node pin).length ≤ 1 := by
  have history := Graph.Becomes.edited (.link ⟨2, 0, 3, 2⟩)
    (.edited (.link ⟨2, 0, 3, 1⟩)
      (.edited (.addDefault .compare .origin 3)
        (.edited (.add (.value 3) .origin 2) (.unedited (g := Graph.single 1))
          (Graph.draws_of_room (by decide +kernel) _))
        (Graph.draws_of_room (by decide +kernel) _))
      trivial) trivial
  have slots := @Job.hasSlots_of_small ⟨_, "fan", none⟩ history.made.1 (by decide +kernel)
  exact ⟨_, history, slots, fun single => absurd (single 2 0) (by decide +kernel)⟩

end NodeScript
