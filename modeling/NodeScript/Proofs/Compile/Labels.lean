import NodeScript.Proofs.Compile.Declarations
import NodeScript.Proofs.Compile.Readback
import NodeScript.Proofs.Source.Labels

/-!
The labels and the jumps of a compiled unit. A node has a label if it is placed and several links
into Logic inputs lead to it; a jump is written wherever control arrives at a placed node, by
whatever links. No label is written twice. A jump finds its label if links join pins of one kind;
links of mixed kinds, which graphs may have, can lead to a node with a single Logic link a second
time, and that jump has no label.
-/
namespace NodeScript

open Source (OneLine Still legibleLine still_declared still_indentation)

namespace Node

variable (g : Graph) (node : Node) (spell : Variable → String) (indent : Nat)

theorem labels_lines (base : Nat) :
    (node.lines g spell indent).filterMap Line.label? = (node.marks g base).map Prod.fst := by
  unfold lines opening statements marks
  rw [List.filterMap_append, List.filterMap_append, List.filterMap_map]
  split <;> cases node.kind <;> simp [Line.label?, Function.comp_def]

theorem gotos_lines : (node.lines g spell indent).filterMap Line.goto? = [] := by
  unfold lines opening statements
  rw [List.filterMap_append, List.filterMap_append, List.filterMap_map]
  split <;> cases node.kind <;> simp [Line.goto?, Statement.goto?, Function.comp_def]

theorem labels_prelude : ((node.prelude spell).toList.map (Line.statement indent)).filterMap
    Line.label? = [] := by
  simp [Line.label?]

theorem gotos_prelude : ((node.prelude spell).toList.map (Line.statement indent)).filterMap
    Line.goto? = [] := by
  unfold prelude
  cases node.kind <;> simp [Line.goto?, Statement.goto?]

end Node

namespace Chain

variable (g : Graph)

theorem labels_lines (chain : Chain) (indent base : Nat) :
    (chain.lines g indent).filterMap Line.label? = (chain.marks g base).map Prod.fst := by
  induction chain generalizing indent base with
  | stop | jump => rfl
  | step node rest ih =>
    rw [lines, List.filterMap_append, node.labels_lines g _ indent base,
      List.filterMap_cons_none rfl, ih indent (base + node.size g), marks_step, List.map_append]
  | branch node first second ihFirst ihSecond =>
    rw [lines, List.filterMap_append, List.filterMap_append, List.filterMap_cons_none rfl,
      List.filterMap_append, List.filterMap_append, node.labels_lines g _ indent base,
      ihFirst _ (base + node.size g), node.labels_prelude,
      ihSecond _ (base + node.size g + first.size g), marks_branch]
    simp [Line.label?]

theorem gotos_lines (chain : Chain) (indent : Nat) :
    (chain.lines g indent).filterMap Line.goto? = chain.jumps.map Assembly.labelName := by
  induction chain generalizing indent with
  | stop | jump => rfl
  | step node rest ih =>
    rw [lines, List.filterMap_append, node.gotos_lines, List.filterMap_cons_none rfl, ih]
    rfl
  | branch node first second ihFirst ihSecond =>
    rw [lines, List.filterMap_append, List.filterMap_append, List.filterMap_cons_none rfl,
      List.filterMap_append, List.filterMap_append, node.gotos_lines, ihFirst, node.gotos_prelude,
      ihSecond, jumps]
    simp [Line.goto?, Statement.goto?]

end Chain

namespace Layout

variable (g : Graph)

/-- The nodes that a unit goes on at although they stand elsewhere. -/
def jumps (layout : Layout) : List Uuid := layout.flatMap fun entry => entry.2.jumps

theorem lines_cons (trigger : Trigger) (chain : Chain) (rest : Layout) :
    lines g ((trigger, chain) :: rest) =
      .label trigger.label :: (chain.lines g 1 ++ lines g rest) := rfl

theorem labels_lines (layout : Layout) (base : Nat) :
    (layout.lines g).filterMap Line.label? = (layout.marks g base).map Prod.fst := by
  induction layout generalizing base with
  | nil => rfl
  | cons entry rest ih =>
    obtain ⟨trigger, chain⟩ := entry
    have named : Line.label? (.label trigger.label) = some trigger.label := rfl
    rw [lines_cons, List.filterMap_cons_some named, List.filterMap_append,
      chain.labels_lines g 1 base, ih (base + chain.size g), marks, List.map_cons, List.map_append]

theorem gotos_lines (layout : Layout) :
    (layout.lines g).filterMap Line.goto? = layout.jumps.map Assembly.labelName := by
  induction layout with
  | nil => rfl
  | cons entry rest ih =>
    obtain ⟨trigger, chain⟩ := entry
    rw [lines_cons, List.filterMap_cons_none rfl, List.filterMap_append, chain.gotos_lines, ih,
      jumps, jumps, List.flatMap_cons, List.map_append]

end Layout

/-- The type of a variable is one word. -/
theorem Variable.still_declared (v : Variable) (rest : String) (opened : Source.opens rest = true) :
    Still (v.declaration.type ++ " " ++ v.name ++ rest) := by
  have type : v.declaration.type ∈ ["uint32_t", "int", "UserFunc"] := by
    cases v <;> simp [declaration]
  have word : ∀ type ∈ ["uint32_t", "int", "UserFunc"],
      Source.words type = [type] ∧ type ≠ "goto" := by decide
  obtain ⟨one, verb⟩ := word _ type
  exact Source.still_declared rest one verb v.plain_name opened

namespace Assembly

variable {a : Assembly} {vars : List Variable}

theorem still_fileLines (declared : a.globals = Variable.table vars) :
    ∀ line ∈ a.fileLines, Still line := by
  intro line member
  rw [fileLines, declared] at member
  obtain ⟨declaration, kept, rfl⟩ := List.mem_map.mp member
  obtain ⟨v, -, rfl⟩ := List.mem_map.mp (List.mem_filter.mp kept).1
  have still := v.still_declared (" = " ++ v.declaration.initialText ++ ";")
    (by simp [Source.opens, Source.isBreak])
  simpa [Declaration.fileLine, String.append_assoc, Variable.declaration] using still

theorem still_stateLines (declared : a.globals = Variable.table vars) :
    ∀ line ∈ a.stateLines.map ("  " ++ ·), Still line := by
  intro line member
  rw [stateLines, List.map_map, declared] at member
  obtain ⟨declaration, kept, rfl⟩ := List.mem_map.mp member
  obtain ⟨v, -, rfl⟩ := List.mem_map.mp (List.mem_filter.mp kept).1
  have still := v.still_declared ";" (by decide)
  exact (Source.still_indentation 1).mpr still

/-- The line that ends the state structure. -/
theorem still_stateType (uuid : Uuid) : Still ("\x7d " ++ functionName uuid ++ "_state;") := by
  have letters : "\x7d " ++ functionName uuid ++ "_state;" =
      "\x7d" ++ " " ++ (functionName uuid ++ "_state") ++ ";" := String.toList_inj.mp (by simp)
  rw [letters]
  exact still_declared ";" rfl (by decide)
    (Source.plain_append (plain_functionName uuid) (by decide)) (by decide)

/-- The line that finds the state of an instance. -/
theorem still_statePointer (uuid : Uuid) :
    Still ("  " ++ functionName uuid ++ "_state* state = (" ++ functionName uuid ++
      "_state*)inst->state;") := by
  have letters : "  " ++ functionName uuid ++ "_state* state = (" ++ functionName uuid ++
      "_state*)inst->state;" =
      indentation 1 ++ ((functionName uuid ++ "_state*") ++ " " ++ "state" ++
        (" = (" ++ functionName uuid ++ "_state*)inst->state;")) :=
    String.toList_inj.mp (by simp [indentation])
  have verb : functionName uuid ++ "_state*" ≠ "goto" := by
    intro same
    have second := congrArg (fun text => text.toList[1]?) same
    simp [functionName] at second
  rw [letters, still_indentation]
  exact still_declared _ (Source.words_of_plain (Source.plain_append (plain_functionName uuid)
    (by decide))) verb (by decide) (by simp +decide [Source.opens])

theorem still_head (uuid : Uuid) :
    Still ("void " ++ functionName uuid ++ "(Instance* inst, Trigger trigger) \x7b") := by
  have letters : "void " ++ functionName uuid = "void" ++ " " ++ functionName uuid :=
    String.toList_inj.mp (by simp)
  rw [letters]
  exact still_declared _ rfl (by decide) (plain_functionName uuid) (by decide)

/-- The header of a unit has no labels and no jumps, and after its body there is one bracket. -/
theorem exists_header (declared : a.globals = Variable.table vars) (uuid : Uuid) (name : String)
    (entries : Entries) :
    ∃ header, a.sourceLines uuid name entries = header ++ a.bodyLines ++ ["\x7d"] ∧
      ∀ line ∈ header, Still line := by
  have comment : Still ("// '" ++ name ++ "' (" ++ hex64 uuid ++ ")") := by
    have still := Source.still_comment ("'" ++ name ++ "' (" ++ hex64 uuid ++ ")")
    simpa [← String.append_assoc] using still
  have state : ∀ line ∈ if a.stateLines.isEmpty then [] else
      ["typedef struct \x7b"] ++ a.stateLines.map ("  " ++ ·) ++
        ["\x7d " ++ functionName uuid ++ "_state;", ""], Still line := by
    split
    · nofun
    · refine List.forall_mem_append.mpr ⟨List.forall_mem_append.mpr
        ⟨by decide, still_stateLines declared⟩, ?_⟩
      exact List.forall_mem_cons.mpr ⟨still_stateType uuid, by decide⟩
  have pointer : ∀ line ∈ if a.stateLines.isEmpty then [] else
      ["  " ++ functionName uuid ++ "_state* state = (" ++ functionName uuid ++
        "_state*)inst->state;"], Still line := by
    split
    · nofun
    · exact List.forall_mem_singleton.mpr (still_statePointer uuid)
  have cases : ∀ line ∈ (Trigger.all.filter fun trigger => (entries.get trigger).isSome).map
      fun trigger => "    case " ++ trigger.constant ++ ": goto " ++ trigger.label ++ ";",
      Still line := by
    intro line member
    obtain ⟨trigger, -, rfl⟩ := List.mem_map.mp member
    cases trigger <;> decide
  have gap : ∀ line ∈ if a.fileLines.isEmpty then [] else [""], Still line := by
    split <;> decide
  refine ⟨_, rfl, ?_⟩
  simp only [List.forall_mem_append, List.forall_mem_singleton]
  exact ⟨⟨⟨⟨⟨⟨⟨⟨comment, still_fileLines declared⟩, gap⟩, state⟩, still_head uuid⟩, pointer⟩,
    by decide⟩, cases⟩, by decide⟩

/-- The lines of a unit have the labels and the jumps of its body. -/
theorem labels_sourceLines (declared : a.globals = Variable.table vars)
    (readable : ∀ line ∈ a.lines.toList, legibleLine line) (uuid : Uuid) (name : String)
    (entries : Entries) :
    (a.sourceLines uuid name entries).filterMap Source.label? =
        a.lines.toList.filterMap Line.label? ∧
      (a.sourceLines uuid name entries).filterMap Source.goto? =
        a.lines.toList.filterMap Line.goto? := by
  obtain ⟨header, split, still⟩ := exists_header declared uuid name entries
  obtain ⟨noLabel, noGoto⟩ := Source.filterMap_still still
  obtain ⟨last, last'⟩ := @Source.filterMap_still ["\x7d"] (by decide)
  obtain ⟨labels, gotos⟩ := Source.filterMap_flatMap_render readable
  rw [split, bodyLines]
  simp only [List.filterMap_append, noLabel, noGoto, labels, gotos, last, last', List.nil_append,
    List.append_nil, and_self]

end Assembly

namespace Layout

variable {g : Graph} {layout : Layout} {after : List Uuid}

/-- A placed node has one label if several Logic links lead to it, and none otherwise. -/
theorem count_marks (laid : Chain.LaysAll g Trigger.all [] layout after) {uuid : Uuid}
    (placed : uuid ∈ after) :
    ((layout.marks g 0).map Prod.fst).count (Assembly.labelName uuid) =
      if 1 < g.logicInDegree uuid then 1 else 0 := by
  split
  next visible =>
    have key : uuid ∈ (layout.places g 0).map Prod.fst := by
      rw [keys_places]
      rwa [laid.after_eq, List.append_nil, List.mem_reverse] at placed
    obtain ⟨place, inside, rfl⟩ := List.mem_map.mp key
    refine List.count_eq_one_of_mem (nodup_labels laid) ?_
    exact List.mem_map.mpr ⟨_, mark_mem inside visible, rfl⟩
  next hidden =>
    refine List.count_eq_zero.mpr fun member => ?_
    rcases mem_marks member with ⟨entry, -, same⟩ | ⟨node, -, visible, same⟩
    · exact label_ne_labelName _ _ same.symm
    · exact hidden (labelName_injective same ▸ visible)

/-- What a unit goes on at has been placed. -/
theorem jumps_subset (laid : Chain.LaysAll g Trigger.all [] layout after) :
    layout.jumps ⊆ after := by
  intro uuid jumped
  obtain ⟨entry, member, jumped⟩ := List.mem_flatMap.mp jumped
  exact laid.jumps_subset entry member jumped

end Layout

/-- The labels and the jumps of a compiled script, where the name of the asset and the titles of
nodes, which comments repeat, have no line breaks. -/
theorem Job.labels_of_compile {job : Job} (formed : job.graph.WellFormed) {uuid : Uuid}
    {script : Script} (compiled : (job.compile uuid).value = .ok script) (named : OneLine job.asset)
    (titled : ∀ node ∈ job.graph.nodes, OneLine node.kind.title) :
    ∃ (layout : Layout) (after : List Uuid), Chain.ofGraph job.graph job.asset = .ok layout ∧
      Chain.LaysAll job.graph Trigger.all [] layout after ∧
      Source.labels script.source = (layout.marks job.graph 0).map Prod.fst ∧
      Source.gotos script.source = layout.jumps.map Assembly.labelName := by
  obtain ⟨layout, after, success, laid, few, rfl⟩ := Job.laid_of_compile formed compiled
  obtain ⟨globals, lines⟩ := laid.drafted few
  have readable : ∀ line ∈ (job.draft layout).1.assembly.lines.toList, legibleLine line :=
    lines ▸ Layout.lines_legible job.graph layout
  have inner : ∀ line ∈ (job.draft layout).1.assembly.lines.toList, line.Inner :=
    lines ▸ laid.lines_inner titled
  obtain ⟨labels, gotos⟩ :=
    Assembly.labels_sourceLines globals readable uuid job.asset (job.draft layout).2
  have whole := (@Assembly.defines_sourceLines _ _ uuid job.asset (job.draft layout).2 globals inner
    named).whole
  rw [lines, Layout.labels_lines job.graph layout 0] at labels
  rw [lines, Layout.gotos_lines] at gotos
  obtain ⟨written, written'⟩ := Source.labels_join whole
  rw [← Assembly.source_toScript] at written written'
  exact ⟨layout, after, success, laid, written.trans labels, written'.trans gotos⟩

/-- Labels of nodes that are gone on at. In the source of a compiled script no label is written
twice, and each jump is to a node of the graph, which has its one label if more than one link
arrives at its Logic inputs, and no label otherwise. So no jump lacks its label if links join pins
of one kind. -/
theorem jumps_find_labels_of_joins {nodes : List Node} {links : List Link} {g : Graph}
    (accepted : Graph.ofParts nodes links = .ok g) {asset : String} {functions : Option Registry}
    {uuid : Uuid} {script : Script}
    (compiled : (Job.compile ⟨g, asset, functions⟩ uuid).value = .ok script)
    (named : OneLine asset) (titled : ∀ node ∈ g.nodes, OneLine node.kind.title) :
    (Source.labels script.source).Nodup ∧
      (∀ name ∈ Source.gotos script.source, ∃ node ∈ g.nodes,
        name = Assembly.labelName node.uuid ∧
          (Source.labels script.source).count name =
            if 1 < g.logicInDegree node.uuid then 1 else 0) ∧
      (g.Typed → ∀ name ∈ Source.gotos script.source,
        (Source.labels script.source).count name = 1) := by
  have formed := Graph.wellFormed_of_ofParts accepted
  obtain ⟨layout, after, -, laid, labels, gotos⟩ :=
    Job.labels_of_compile formed compiled named titled
  rw [labels, gotos]
  refine ⟨Layout.nodup_labels laid, ?_, ?_⟩
  · intro name member
    obtain ⟨target, jumped, rfl⟩ := List.mem_map.mp member
    have placed := Layout.jumps_subset laid jumped
    have count := Layout.count_marks laid placed
    rw [laid.after_eq, List.append_nil, List.mem_reverse] at placed
    obtain ⟨node, inside, rfl⟩ := List.mem_map.mp placed
    exact ⟨node, (Graph.node?_eq_some (laid.node_mem node inside).1).1, rfl, count⟩
  · intro typed name member
    obtain ⟨target, jumped, rfl⟩ := List.mem_map.mp member
    obtain ⟨entry, inside, jumped'⟩ := List.mem_flatMap.mp jumped
    rw [Layout.count_marks laid (Layout.jumps_subset laid jumped),
      if_pos (laid.one_lt_logicInDegree formed typed inside jumped')]

/-- A Compare node whose first value is linked to two Logic outputs. -/
def Graph.crossed : Graph where
  nodes := [⟨1, .start, .origin⟩, ⟨2, .compare .equal, .origin⟩]
  links := [⟨1, 0, 2, 1⟩, ⟨1, 1, 2, 1⟩]

theorem Graph.crossed_accepted :
    Graph.ofParts Graph.crossed.nodes Graph.crossed.links = .ok Graph.crossed := by rfl

/-- In the sample graph two paths meet at Logic inputs. The crossed graph has one jump, and no label
for it. -/
theorem jumps_find_labels_of_joins_crossed :
    (∃ script, (Job.compile ⟨Graph.sample, "sample", none⟩ 9).value = .ok script ∧
      Source.gotos script.source ≠ [] ∧
      ∀ name ∈ Source.gotos script.source, (Source.labels script.source).count name = 1) ∧
    ∃ script, (Job.compile ⟨Graph.crossed, "crossed", none⟩ 9).value = .ok script ∧
      Source.gotos script.source = [Assembly.labelName 2] ∧
      (Source.labels script.source).count (Assembly.labelName 2) = 0 := by
  have formed := Graph.wellFormed_of_ofParts Graph.sample_accepted
  have formed' := Graph.wellFormed_of_ofParts Graph.crossed_accepted
  have titled : ∀ node ∈ Graph.sample.nodes, OneLine node.kind.title := by decide +kernel
  have titled' : ∀ node ∈ Graph.crossed.nodes, OneLine node.kind.title := by decide +kernel
  constructor
  · obtain ⟨script, compiled⟩ :=
      @Job.compile_of_small ⟨Graph.sample, "sample", none⟩ formed (by decide) 9
    obtain ⟨layout, -, laid, -, -, gotos⟩ :=
      Job.labels_of_compile formed compiled (by decide) titled
    obtain ⟨-, -, found⟩ := jumps_find_labels_of_joins Graph.sample_accepted compiled (by decide)
      titled
    have jumps : (Chain.ofGraph Graph.sample "sample").toOption.map Layout.jumps = some [2, 8] := by
      decide +kernel
    rw [laid] at jumps
    refine ⟨script, compiled, ?_, found (by decide +kernel)⟩
    rw [gotos, Option.some.inj jumps]
    nofun
  · obtain ⟨script, compiled⟩ :=
      @Job.compile_of_small ⟨Graph.crossed, "crossed", none⟩ formed' (by decide) 9
    obtain ⟨layout, -, laid, -, -, gotos⟩ :=
      Job.labels_of_compile formed' compiled (by decide) titled'
    obtain ⟨-, counts, -⟩ := jumps_find_labels_of_joins Graph.crossed_accepted compiled (by decide)
      titled'
    have jumps : (Chain.ofGraph Graph.crossed "crossed").toOption.map Layout.jumps = some [2] := by
      decide +kernel
    rw [laid] at jumps
    rw [Option.some.inj jumps] at gotos
    obtain ⟨node, -, same, count⟩ := counts (Assembly.labelName 2) (by simp [gotos])
    refine ⟨script, compiled, gotos, ?_⟩
    rw [count, ← labelName_injective same]
    decide +kernel

end NodeScript
