import NodeScript.Compile.Unit
import NodeScript.Proofs.Compile.Lowered

/-!
The finished unit of an accepted graph. The chains of all entries follow each other in one code,
with the globals, places and labels of the whole. `Job.Fits` bounds what the unit needs; within
these bounds compilation succeeds and gives the closed form.
-/
namespace NodeScript

open Variable (table declareAll)

/-- The chains of the entries, in the order in which they are lowered. -/
abbrev Layout := List (Trigger × Chain)

namespace Layout

variable (g : Graph)

def size : Layout → Nat
  | [] => 0
  | (_, chain) :: rest => chain.size g + size rest

def demands (layout : Layout) : List Variable := layout.flatMap fun entry => entry.2.demands g

def frame : Layout → Nat
  | [] => 0
  | (_, chain) :: rest => max (chain.frame g) (frame rest)

def places : (base : Nat) → Layout → List (Uuid × Nat)
  | _, [] => []
  | base, (_, chain) :: rest => chain.places g base ++ places (base + chain.size g) rest

def code (vars : List Variable) (address : Uuid → Nat) :
    (base : Nat) → Layout → List Instruction
  | _, [] => []
  | base, (_, chain) :: rest =>
    chain.code g vars address base ++ code vars address (base + chain.size g) rest

/-- Each entry stands under a label of its own. -/
def lines (layout : Layout) : List Line :=
  layout.flatMap fun (trigger, chain) => .label trigger.label :: chain.lines g 1

def entries : (base : Nat) → Layout → Entries → Entries
  | _, [], found => found
  | base, (trigger, chain) :: rest, found =>
    entries (base + chain.size g) rest (found.set trigger base.toUInt32)

/-- The variables of the unit, in the order of their slots. -/
def vars (layout : Layout) : List Variable := declareAll [] (layout.demands g)

/-- Where a node stands in the code of the unit. -/
def address (layout : Layout) (uuid : Uuid) : Nat :=
  (((layout.places g 0).find? fun place => place.1 == uuid).map Prod.snd).getD 0

def program (layout : Layout) : Program where
  code := (layout.code g (layout.vars g) (layout.address g) 0).toArray
  entries := layout.entries g 0 .empty
  globals := ((layout.vars g).map fun v => v.declaration.global).toArray
  maxLocals := (layout.frame g).toUInt16

theorem keys_places (layout : Layout) (base : Nat) :
    (layout.places g base).map Prod.fst =
      (layout.flatMap fun entry => entry.2.nodes).map (·.uuid) := by
  induction layout generalizing base with
  | nil => rfl
  | cons entry rest ih => simp [places, ih, Chain.keys_places]

end Layout

namespace Draft

variable {job : Job} {fin : List Variable} {address : Uuid → Nat}

/-- The draft in which the chain of an entry is lowered. -/
def enterTrigger (d : Draft) (job : Job) (trigger : Trigger) : Draft :=
  ((d.noteLinks job job.graph.start.uuid trigger.pin).report
    (.lowering trigger job.asset)).edit fun a => a.writeLabel trigger.label

@[simp] theorem assembly_enterTrigger (d : Draft) (trigger : Trigger) :
    (d.enterTrigger job trigger).assembly = d.assembly.writeLabel trigger.label := by
  simp [enterTrigger]

@[simp] theorem failure_enterTrigger (d : Draft) (trigger : Trigger) :
    (d.enterTrigger job trigger).failure = d.failure := by
  simp [enterTrigger]

theorem lowerEntries_cons (trigger : Trigger) (chain : Chain) (rest : Layout) (d : Draft)
    (entries : Entries) :
    lowerEntries job ((trigger, chain) :: rest) d entries =
      lowerEntries job rest (lowerChain job chain (d.enterTrigger job trigger))
        (entries.set trigger d.assembly.here) := by
  simp only [lowerEntries, lowerEntry, enterTrigger, assembly_edit, assembly_report,
    assembly_noteLinks]
  rfl

theorem lowerEntries_counts {triggers : List Trigger} {placed after : List Uuid} {layout : Layout}
    (laid : Chain.LaysAll job.graph triggers placed layout after) (d : Draft) (entries : Entries)
    (vars : List Variable) (declared : d.assembly.globals = table vars)
    (known : d.assembly.labels.map Prod.fst = placed) :
    (lowerEntries job layout d entries).1.assembly.globals =
        table (declareAll vars (layout.demands job.graph)) ∧
      (lowerEntries job layout d entries).1.assembly.code.size =
        d.assembly.code.size + layout.size job.graph := by
  induction laid generalizing d entries vars with
  | done placed => simp [lowerEntries, declared, Layout.demands, Layout.size]
  | skip unlinked others ih => exact ih d entries vars declared known
  | @lead placed middle after trigger rest target chain layout linked laid others ih =>
    obtain ⟨globals, size, labels⟩ := lowerChain_counts laid (d.enterTrigger job trigger) vars
      (by rw [assembly_enterTrigger]; exact declared) (by rw [assembly_enterTrigger]; exact known)
    rw [lowerEntries_cons]
    have spec := ih _ (entries.set trigger d.assembly.here) _ globals labels
    rw [spec.1, spec.2, size]
    simp [Layout.demands, Layout.size, Variable.declareAll_append, Nat.add_assoc,
      Assembly.writeLabel]

/-- What lowering does with all entries. -/
inductive LowersAll (job : Job) (fin : List Variable) : Layout → Draft → Draft → Prop
  | done (d : Draft) : LowersAll job fin [] d d
  | lead {trigger : Trigger} {chain : Chain} {rest : Layout} {d held e : Draft}
      (lowers : Lowers job fin chain (d.enterTrigger job trigger) held)
      (others : LowersAll job fin rest held e) : LowersAll job fin ((trigger, chain) :: rest) d e

theorem lowersAll_lowerEntries {triggers : List Trigger} {placed after : List Uuid}
    {layout : Layout} (laid : Chain.LaysAll job.graph triggers placed layout after) (d : Draft)
    (entries : Entries) (vars : List Variable) (declared : d.assembly.globals = table vars)
    (known : d.assembly.labels.map Prod.fst = placed)
    (longer : declareAll vars (layout.demands job.graph) <+: fin) :
    LowersAll job fin layout d (lowerEntries job layout d entries).1 := by
  induction laid generalizing d entries vars with
  | done placed => exact .done d
  | skip unlinked others ih => exact ih d entries vars declared known longer
  | @lead placed middle after trigger rest target chain layout linked laid others ih =>
    simp only [Layout.demands, List.flatMap_cons, Variable.declareAll_append] at longer
    have opened : (d.enterTrigger job trigger).assembly.globals = table vars := by
      rw [assembly_enterTrigger]
      exact declared
    have seen : (d.enterTrigger job trigger).assembly.labels.map Prod.fst = placed := by
      rw [assembly_enterTrigger]
      exact known
    obtain ⟨globals, -, labels⟩ := lowerChain_counts laid _ vars opened seen
    rw [lowerEntries_cons]
    exact .lead (lowers_lowerChain laid _ vars opened seen
      ((Variable.prefix_declareAll _ _).trans longer)) (ih _ _ _ globals labels longer)

/-- While slots are exact, the lines are those of the closed form. -/
theorem LowersAll.lines {layout : Layout} {d e : Draft} (lowers : LowersAll job fin layout d e)
    (margin : d.assembly.indent = 1) (few : fin.length ≤ 65536) :
    e.assembly.lines.toList = d.assembly.lines.toList ++ layout.lines job.graph := by
  induction lowers with
  | done d => simp [Layout.lines]
  | lead lowers others ih =>
    have written := lowers.written few
    rw [ih (by rw [written.indent, assembly_enterTrigger]; exact margin), written.lines,
      assembly_enterTrigger]
    simp [Assembly.writeLabel, Layout.lines, margin]

theorem lowerEntries_lines {triggers : List Trigger} {placed after : List Uuid} {layout : Layout}
    (laid : Chain.LaysAll job.graph triggers placed layout after) (d : Draft) (entries : Entries)
    (vars : List Variable) (declared : d.assembly.globals = table vars)
    (known : d.assembly.labels.map Prod.fst = placed) (margin : d.assembly.indent = 1)
    (longer : declareAll vars (layout.demands job.graph) <+: fin) (few : fin.length ≤ 65536) :
    (lowerEntries job layout d entries).1.assembly.lines.toList =
      d.assembly.lines.toList ++ layout.lines job.graph :=
  (lowersAll_lowerEntries laid d entries vars declared known longer).lines margin few

/-- What lowering all entries adds to a draft at the margin of a unit. -/
structure LoweredAll (job : Job) (vars fin : List Variable) (address : Uuid → Nat)
    (after : List Uuid) (layout : Layout) (d e : Draft) : Prop where
  globals : e.assembly.globals = table (declareAll vars (layout.demands job.graph))
  code : e.assembly.code.toList =
    d.assembly.code.toList ++ layout.code job.graph fin address d.assembly.code.size
  lines : e.assembly.lines.toList = d.assembly.lines.toList ++ layout.lines job.graph
  maxLocals : e.assembly.maxLocals = max d.assembly.maxLocals (layout.frame job.graph)
  labels : e.assembly.labels = after.map (labelAt address)
  failure : e.failure = d.failure

theorem lowerEntries_spec {triggers : List Trigger} {placed after : List Uuid} {layout : Layout}
    (laid : Chain.LaysAll job.graph triggers placed layout after) (d : Draft) (entries : Entries)
    (vars : List Variable) (declared : d.assembly.globals = table vars)
    (labelled : d.assembly.labels = placed.map (labelAt address)) (margin : d.assembly.indent = 1)
    (longer : declareAll vars (layout.demands job.graph) <+: fin)
    (few : fin.length ≤ slotLimit)
    (room : d.assembly.code.size + layout.size job.graph < UInt32.size)
    (agree : ∀ place ∈ layout.places job.graph d.assembly.code.size,
      address place.1 = place.2) :
    LoweredAll job vars fin address after layout d (lowerEntries job layout d entries).1 ∧
      (lowerEntries job layout d entries).2 =
        layout.entries job.graph d.assembly.code.size entries := by
  induction laid generalizing d entries vars with
  | done placed =>
    refine ⟨?_, rfl⟩
    constructor <;> simp [lowerEntries, declared, labelled, Layout.demands, Layout.code,
      Layout.lines, Layout.frame]
  | skip unlinked others ih =>
    exact ih d entries vars declared labelled margin longer room agree
  | @lead placed middle after trigger rest target chain layout linked laid others ih =>
    have lines := lowerEntries_lines (.lead linked laid others) d entries vars declared
      (by rw [labelled, keys_labelAt]) margin longer (Nat.le_trans few (by decide))
    simp only [Layout.demands, List.flatMap_cons, Variable.declareAll_append, Layout.size,
      Layout.places, List.forall_mem_append] at longer room agree
    have entered := @assembly_enterTrigger job d trigger
    have spec := lowerChain_spec laid (d.enterTrigger job trigger) vars
      (by rw [entered]; exact declared) (by rw [entered]; exact labelled)
      ((Variable.prefix_declareAll _ _).trans longer) few
      (by rw [entered]; simp only [Assembly.writeLabel]; omega) (by rw [entered]; exact agree.1)
    have size := spec.size
    rw [entered] at size
    change _ = d.assembly.code.size + _ at size
    obtain ⟨lowered, recorded⟩ := ih _ (entries.set trigger d.assembly.here) _ spec.globals
      spec.labels (by rw [spec.indent, entered]; exact margin) longer
      (by rw [size]; omega) (by rw [size]; exact agree.2)
    rw [lowerEntries_cons] at lines ⊢
    refine ⟨?_, by rw [recorded, size, Layout.entries]; rfl⟩
    constructor
    case globals =>
      rw [lowered.globals, Layout.demands, Layout.demands, List.flatMap_cons,
        Variable.declareAll_append]
    case code =>
      rw [lowered.code, spec.code, size, Layout.code, entered]
      simp [Assembly.writeLabel]
    case lines => exact lines
    case maxLocals =>
      rw [lowered.maxLocals, spec.maxLocals, entered, Layout.frame, ← Nat.max_assoc]
      rfl
    case labels => exact lowered.labels
    case failure =>
      rw [lowered.failure, spec.failure, failure_enterTrigger]

end Draft

/-- The unit needs no more globals than slots can number, and fewer instructions than there are
addresses. -/
def Job.Fits (job : Job) : Prop :=
  ∀ layout, Chain.ofGraph job.graph job.asset = .ok layout →
    (job.draft layout).1.assembly.globals.size ≤ 65535 ∧
      (job.draft layout).1.assembly.code.size < UInt32.size

theorem Graph.sample_fits : Job.Fits ⟨Graph.sample, "sample", none⟩ := by
  intro layout success
  have laid : Chain.ofGraph Graph.sample "sample" =
      .ok ((Chain.ofGraph Graph.sample "sample").toOption.getD []) := by
    decide +kernel
  rw [laid] at success
  cases success
  decide +kernel

/-- What a layout needs to be a unit in which slots and addresses are exact. -/
structure Layout.Closed (g : Graph) (after : List Uuid) (layout : Layout) : Prop where
  laid : Chain.LaysAll g Trigger.all [] layout after
  few : (layout.vars g).length ≤ 65535
  room : layout.size g < UInt32.size

namespace Layout

variable {g : Graph} {after : List Uuid} {layout : Layout}

theorem nodup_vars (g : Graph) (layout : Layout) : (layout.vars g).Nodup :=
  Variable.nodup_declareAll List.nodup_nil _

theorem frame_le (g : Graph) (layout : Layout) : layout.frame g ≤ 3 := by
  induction layout with
  | nil => exact Nat.zero_le 3
  | cons entry rest ih => exact Nat.max_le.mpr ⟨entry.2.frame_le g, ih⟩

theorem toNat_frame (g : Graph) (layout : Layout) :
    (layout.frame g).toUInt16.toNat = layout.frame g :=
  UInt16.toNat_ofNat_of_lt' (Nat.lt_of_le_of_lt (layout.frame_le g) (by decide))

/-- Every node is placed at one address. -/
theorem address_eq (distinct : ((layout.places g 0).map Prod.fst).Nodup) {place : Uuid × Nat}
    (member : place ∈ layout.places g 0) : layout.address g place.1 = place.2 := by
  rw [address, find?_of_nodup_keys distinct member]
  rfl

theorem nodup_keys (laid : Chain.LaysAll g Trigger.all [] layout after) :
    ((layout.places g 0).map Prod.fst).Nodup := by
  have distinct := laid.nodup List.nodup_nil
  rw [laid.after_eq, List.append_nil, List.nodup_reverse] at distinct
  rwa [keys_places]

/-- The places of a unit are its addresses. -/
theorem address_place (laid : Chain.LaysAll g Trigger.all [] layout after) :
    ∀ place ∈ layout.places g 0, layout.address g place.1 = place.2 :=
  fun _ member => address_eq (nodup_keys laid) member

/-- The draft of a unit that fits. -/
theorem Closed.lowered {job : Job} (closed : layout.Closed job.graph after) :
    Draft.LoweredAll job [] (layout.vars job.graph) (layout.address job.graph) after layout .empty
        (job.draft layout).1 ∧
      (job.draft layout).2 = layout.entries job.graph 0 .empty :=
  Draft.lowerEntries_spec closed.laid .empty .empty [] rfl rfl rfl List.prefix_rfl closed.few
    (by simpa [Draft.empty, Assembly.empty] using closed.room)
    (address_place closed.laid)

end Layout

/-- An accepted graph whose unit fits has a closed layout. -/
theorem Job.Fits.closed {job : Job} (fits : job.Fits) (formed : job.graph.WellFormed) :
    ∃ layout after, Chain.ofGraph job.graph job.asset = .ok layout ∧
      Layout.Closed job.graph after layout := by
  obtain ⟨layout, after, success, laid⟩ := Chain.ofGraph_success formed job.asset
  obtain ⟨few, room⟩ := fits layout success
  obtain ⟨globals, size⟩ := Draft.lowerEntries_counts laid .empty .empty [] rfl rfl
  refine ⟨layout, after, success, laid, ?_, ?_⟩
  · simpa [Job.draft, globals, table, Layout.vars] using few
  · rw [Job.draft, size] at room
    simpa [Draft.empty, Assembly.empty] using room

/-- Compilation of a unit that fits. -/
theorem Job.compile_closed {job : Job} {layout : Layout} {after : List Uuid}
    (success : Chain.ofGraph job.graph job.asset = .ok layout)
    (closed : Layout.Closed job.graph after layout) (uuid : Uuid) :
    ∃ script, (job.compile uuid).value = .ok script ∧
      script.program = layout.program job.graph ∧
      script.stackSize = (baseStackSlots + layout.frame job.graph).toUInt16 ∧
      script.source =
        (job.draft layout).1.assembly.source uuid job.asset (layout.program job.graph).entries := by
  obtain ⟨lowered, entries⟩ := closed.lowered
  have quiet : (job.draft layout).1.failure = none := lowered.failure
  have frame : min (job.draft layout).1.assembly.maxLocals 65535 = layout.frame job.graph := by
    have small := layout.frame_le job.graph
    rw [lowered.maxLocals]
    simp only [Draft.empty, Assembly.empty]
    omega
  refine ⟨(job.draft layout).1.assembly.toScript uuid job.asset (job.draft layout).2,
    ?_, ?_, ?_, ?_⟩
  · simp only [Job.compile, success, quiet]
  · have code : (job.draft layout).1.assembly.code = (layout.program job.graph).code :=
      Array.toList_inj.mp lowered.code
    have globals := lowered.globals
    rw [Assembly.toScript, Layout.program, entries, frame, code, globals]
    simp [Layout.program, Layout.vars, table]
  · have small := layout.frame_le job.graph
    simp only [Assembly.toScript, frame, baseStackSlots]
    rw [Nat.min_eq_left (by omega)]
  · rw [Assembly.toScript, entries]
    rfl

end NodeScript
