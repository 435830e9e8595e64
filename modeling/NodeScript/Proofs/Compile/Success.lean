import NodeScript.Proofs.Compile.Placement

/-!
What a compilation that succeeds tells of its unit. Slots are checked behind every node, so a unit
without a noted overflow has no more globals than slots; and a unit of few nodes has few
instructions. Then slots and addresses are exact.
-/
namespace NodeScript

namespace Draft

variable {job : Job} {d e : Draft}

/-- Unless an overflow has been noted there are no more globals than slots. -/
def Checked (d : Draft) : Prop := d.failure = none → d.assembly.globals.size ≤ slotLimit

theorem checked_checkSlots (job : Job) (d : Draft) (node : Uuid) :
    (d.checkSlots job node).Checked := by
  unfold checkSlots Checked
  split
  · intro quiet
    cases noted : d.failure <;> simp [noted] at quiet
  · next globals =>
    split
    · exact fun _ => Nat.not_lt.mp globals
    · exact fun _ => Nat.not_lt.mp globals

theorem Checked.of_eq (checked : d.Checked) (globals : e.assembly.globals = d.assembly.globals)
    (failure : e.failure = d.failure) : e.Checked := by
  rw [Checked, globals, failure]
  exact checked

theorem Checked.lowerChain (checked : d.Checked) (chain : Chain) :
    (lowerChain job chain d).Checked := by
  induction chain generalizing d with
  | stop => exact checked.of_eq rfl rfl
  | jump uuid =>
    refine checked.of_eq ?_ rfl
    rw [Draft.lowerChain, assembly_edit, Assembly.goto]
    split <;> rfl
  | step node rest ih =>
    have behind := checked_checkSlots job
      (((d.resolveInputs job node.uuid node.type.valueInputs).1.openNode job node).lowerStep job
        node) node.uuid
    rw [lowerChain_step]
    refine ih (behind.of_eq ?_ ?_)
    · rw [stepped, assembly_noteLinks]
      rfl
    · rw [stepped, failure_noteLinks]
      rfl
  | branch node first second firstIh secondIh =>
    have behind := checked_checkSlots job (d.headed job node).1 node.uuid
    have inside : (d.entered job node).Checked :=
      behind.of_eq (by rw [entered, assembly_noteLinks]) (by rw [entered, failure_noteLinks])
    have between := firstIh inside
    rw [lowerChain_branch]
    refine (secondIh (between.of_eq (globals_turned job d _ node) ?_)).of_eq rfl rfl
    rw [turned, failure_noteLinks, failure_edit]

theorem Checked.lowerEntries (checked : d.Checked) (layout : Layout) (entries : Entries) :
    (lowerEntries job layout d entries).1.Checked := by
  induction layout generalizing d entries with
  | nil => exact checked
  | cons entry rest ih =>
    rw [lowerEntries_cons]
    have inside : (d.enterTrigger job entry.1).Checked :=
      checked.of_eq (by simp [enterTrigger, Assembly.writeLabel]) (by simp [enterTrigger])
    exact ih (inside.lowerChain entry.2) _

end Draft

theorem Node.size_le (g : Graph) (node : Node) : node.size g ≤ 4 := by
  have constants := node.length_constants_le g
  have operation : (node.operation g [] 0).length ≤ 1 := by
    unfold Node.operation
    cases node.kind <;> simp
  rw [Node.size, Node.code, List.length_append, Node.length_bindings]
  omega

/-- A chain has one end more than it has branching nodes. -/
theorem Chain.size_le (g : Graph) (chain : Chain) : chain.size g ≤ 5 * chain.nodes.length + 1 := by
  induction chain with
  | stop | jump => exact Nat.le_refl 1
  | step node rest ih =>
    have := node.size_le g
    simp only [size, nodes, List.length_cons]
    omega
  | branch node first second firstLe secondLe =>
    have := node.size_le g
    simp only [size, nodes, List.length_cons, List.length_append]
    omega

theorem Layout.size_le (g : Graph) (layout : Layout) :
    layout.size g ≤ 5 * layout.nodes.length + layout.length := by
  induction layout with
  | nil => exact Nat.le_refl 0
  | cons entry rest ih =>
    have := entry.2.size_le g
    simp only [nodes] at ih
    simp only [size, nodes, List.flatMap_cons, List.length_append, List.length_cons]
    omega

theorem Node.length_demands_le (g : Graph) (node : Node) : (node.demands g).length ≤ 2 := by
  have short (input : Input) : input.demands.length ≤ 1 := by cases input <;> simp [Input.demands]
  unfold demands
  cases node.kind with
  | compare op =>
    have first := short (g.input node.uuid 1)
    have second := short (g.input node.uuid 2)
    simp only [List.length_append]
    omega
  | _ => simp

theorem Chain.length_demands_le (g : Graph) (chain : Chain) :
    (chain.demands g).length ≤ 2 * chain.nodes.length := by
  induction chain with
  | stop | jump => exact Nat.le_refl 0
  | step node rest ih =>
    have := node.length_demands_le g
    simp only [demands, nodes, List.length_cons, List.length_append]
    omega
  | branch node first second firstLe secondLe =>
    have := node.length_demands_le g
    simp only [demands, nodes, List.length_cons, List.length_append]
    omega

/-- A unit has no more than two variables for each node. -/
theorem Layout.length_vars_le (g : Graph) (layout : Layout) :
    (layout.vars g).length ≤ 2 * layout.nodes.length := by
  have asked : (layout.demands g).length ≤ 2 * layout.nodes.length := by
    induction layout with
    | nil => exact Nat.le_refl 0
    | cons entry rest ih =>
      have := entry.2.length_demands_le g
      simp only [demands, nodes] at ih
      simp only [demands, nodes, List.flatMap_cons, List.length_append]
      omega
  have declared := Variable.length_declareAll_le [] (layout.demands g)
  rw [List.length_nil, Nat.zero_add] at declared
  exact Nat.le_trans declared asked

/-- No node is placed twice. -/
theorem Chain.LaysAll.length_nodes_le {g : Graph} {after : List Uuid} {layout : Layout}
    (laid : LaysAll g Trigger.all [] layout after) : layout.nodes.length ≤ g.nodes.length := by
  have distinct := laid.nodup List.nodup_nil
  rw [laid.after_eq, List.append_nil, List.nodup_reverse] at distinct
  have inside : (layout.flatMap fun entry => entry.2.nodes).map (·.uuid) ⊆
      g.nodes.map (·.uuid) := by
    intro uuid member
    obtain ⟨node, placed, rfl⟩ := List.mem_map.mp member
    exact List.mem_map_of_mem (Graph.node?_eq_some (laid.node_mem node placed).1).1
  have bound := distinct.length_le_of_subset inside
  rwa [List.length_map, List.length_map] at bound

theorem Chain.LaysAll.length_le {g : Graph} {triggers : List Trigger} {placed after : List Uuid}
    {layout : Layout} (laid : LaysAll g triggers placed layout after) :
    layout.length ≤ triggers.length := by
  induction laid with
  | done => exact Nat.le_refl 0
  | skip _ _ ih => exact Nat.le_succ_of_le ih
  | lead _ _ _ ih => exact Nat.succ_le_succ ih

/-- A compilation that succeeds gives the script of a layout that no overflow is noted for. -/
theorem Job.compile_eq_ok {job : Job} {uuid : Uuid} {script : Script}
    (compiled : (job.compile uuid).value = .ok script) :
    ∃ layout, Chain.ofGraph job.graph job.asset = .ok layout ∧
      (job.draft layout).1.failure = none ∧
      script = (job.draft layout).1.assembly.toScript uuid job.asset (job.draft layout).2 := by
  unfold Job.compile at compiled
  cases laid : Chain.ofGraph job.graph job.asset with
  | error cause => simp [laid] at compiled
  | ok layout =>
    simp only [laid] at compiled
    cases noted : (job.draft layout).1.failure with
    | some failure => simp [noted] at compiled
    | none =>
      simp only [noted, Except.ok.injEq] at compiled
      exact ⟨layout, rfl, noted, compiled.symm⟩

/-- A compiled unit has no more variables than there are slots. -/
theorem Job.laid_of_compile {job : Job} (formed : job.graph.WellFormed) {uuid : Uuid}
    {script : Script} (compiled : (job.compile uuid).value = .ok script) :
    ∃ layout after, Chain.ofGraph job.graph job.asset = .ok layout ∧
      Chain.LaysAll job.graph Trigger.all [] layout after ∧
      (Layout.vars job.graph layout).length ≤ 65535 ∧
      script = (job.draft layout).1.assembly.toScript uuid job.asset (job.draft layout).2 := by
  obtain ⟨layout, success, quiet, same⟩ := Job.compile_eq_ok compiled
  obtain ⟨layout', after, success', laid⟩ := Chain.ofGraph_success formed job.asset
  obtain rfl := Except.ok.inj (success.symm.trans success')
  have checked : Draft.Checked .empty := fun _ => Nat.zero_le _
  have few : (job.draft layout).1.assembly.globals.size ≤ Draft.slotLimit :=
    checked.lowerEntries layout .empty quiet
  obtain ⟨globals, -⟩ := Draft.lowerEntries_counts laid .empty .empty [] rfl rfl
  refine ⟨layout, after, success, laid, ?_, same⟩
  rw [Job.draft, globals] at few
  simpa [Variable.table, Layout.vars, Draft.slotLimit] using few

/-- The variables and the lines of a unit whose variables have slots. -/
theorem Chain.LaysAll.drafted {job : Job} {layout : Layout} {after : List Uuid}
    (laid : Chain.LaysAll job.graph Trigger.all [] layout after)
    (few : (layout.vars job.graph).length ≤ 65535) :
    (job.draft layout).1.assembly.globals = Variable.table (layout.vars job.graph) ∧
      (job.draft layout).1.assembly.lines.toList = layout.lines job.graph := by
  have lines := Draft.lowerEntries_lines laid .empty .empty [] rfl rfl rfl List.prefix_rfl
    (Nat.le_trans few (by decide))
  exact ⟨(Draft.lowerEntries_counts laid .empty .empty [] rfl rfl).1, lines⟩

namespace Draft

variable {job : Job} {fin : List Variable}

/-- While there are slots for all variables no overflow is noted, however long the code is. -/
theorem Lowers.quiet {chain : Chain} {d e : Draft} (lowers : Lowers job fin chain d e)
    (few : fin.length ≤ slotLimit) : e.failure = d.failure := by
  induction lowers with
  | stop | jump => rfl
  | @step d e vars node rest declared single asked behind ih =>
    rw [ih, failure_stepped job declared node single asked few]
  | @branch d held e vars node first second declared double asked arm other ihFirst ihSecond =>
    rw [failure_edit, ihSecond, turned, failure_noteLinks, failure_edit, ihFirst,
      failure_entered job declared node double asked few]

theorem LowersAll.quiet {layout : Layout} {d e : Draft} (lowers : LowersAll job fin layout d e)
    (few : fin.length ≤ slotLimit) : e.failure = d.failure := by
  induction lowers with
  | done d => rfl
  | lead lowers others ih => rw [ih, lowers.quiet few, failure_enterTrigger]

end Draft

/-- A layout whose variables have slots is compiled. -/
theorem Job.compile_of_few {job : Job} {layout : Layout} {after : List Uuid}
    (success : Chain.ofGraph job.graph job.asset = .ok layout)
    (laid : Chain.LaysAll job.graph Trigger.all [] layout after)
    (few : (layout.vars job.graph).length ≤ 65535) (uuid : Uuid) :
    (job.compile uuid).value =
      .ok ((job.draft layout).1.assembly.toScript uuid job.asset (job.draft layout).2) := by
  have quiet : (job.draft layout).1.failure = none :=
    (Draft.lowersAll_lowerEntries laid .empty .empty [] rfl rfl List.prefix_rfl).quiet few
  simp only [Job.compile, success, quiet]

/-- A graph of no more nodes than half a word can number is compiled. -/
theorem Job.compile_of_small {job : Job} (formed : job.graph.WellFormed)
    (small : job.graph.nodes.length ≤ 32767) (uuid : Uuid) :
    ∃ script, (job.compile uuid).value = .ok script := by
  obtain ⟨layout, after, success, laid⟩ := Chain.ofGraph_success formed job.asset
  have placed := laid.length_nodes_le
  have needed := Layout.length_vars_le job.graph layout
  exact ⟨_, Job.compile_of_few success laid (by omega) uuid⟩

/-- A unit that was compiled and has no more nodes than a word can number is closed. -/
theorem Job.closed_of_compile {job : Job} (formed : job.graph.WellFormed) {uuid : Uuid}
    {script : Script} (compiled : (job.compile uuid).value = .ok script) {layout : Layout}
    (success : Chain.ofGraph job.graph job.asset = .ok layout)
    (small : layout.nodes.length ≤ 65535) :
    ∃ after, Layout.Closed job.graph after layout := by
  obtain ⟨layout', after, success', laid, few, -⟩ := Job.laid_of_compile formed compiled
  obtain rfl := Except.ok.inj (success.symm.trans success')
  have size := layout.size_le job.graph
  have entries := laid.length_le
  have bound : UInt32.size = 4294967296 := rfl
  have three : Trigger.all.length = 3 := rfl
  exact ⟨after, laid, few, by omega⟩

end NodeScript
