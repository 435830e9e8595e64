import NodeScript.Proofs.Compile.Clean
import NodeScript.Proofs.Compile.Counters
import NodeScript.Proofs.Execution.Alike
import NodeScript.Proofs.Execution.Containment

/-!
Names of functions, checked when a graph is compiled and bound when its unit is loaded. The check
looks at Function nodes and loading at globals, several nodes sharing one; still both miss the same
functions. If they miss none, every call that is ever made goes to the function that was registered
last for the name of its node.
-/
namespace NodeScript

open Variable (table slotOf)

/-- The hash of the function that an event tells is not registered. -/
def Event.missing? : Event → Option UInt32
  | unregisteredName _ hash _ | unregisteredFunction _ hash _ => some hash
  | _ => none

/-- The hash of the function that an entry tells is not registered. -/
def Entry.missing? : Entry → Option UInt32
  | event reported => reported.missing?
  | _ => none

namespace Registry

/-- The function was registered under the hash, and none after it was. -/
def Latest (r : Registry) (hash : UInt32) (f : UserFunction) : Prop :=
  f.hash = hash ∧ ∃ earlier later, r.functions = earlier ++ f :: later ∧
    ∀ other ∈ later, other.hash ≠ hash

theorem resolve?_eq_some_iff {r : Registry} {hash : UInt32} {f : UserFunction} :
    r.resolve? hash = some f ↔ r.Latest hash f := by
  rw [resolve?, List.find?_eq_some_iff_append, Latest, beq_iff_eq]
  refine and_congr_right fun _ => ⟨?_, ?_⟩
  · rintro ⟨later, earlier, split, others⟩
    refine ⟨earlier.reverse, later.reverse, ?_, fun other member => ?_⟩
    · rw [← r.functions.reverse_reverse, split]
      simp
    · simpa using others other (List.mem_reverse.mp member)
  · rintro ⟨earlier, later, split, others⟩
    refine ⟨later.reverse, earlier.reverse, by simp [split], fun other member => ?_⟩
    simpa using others other (List.mem_reverse.mp member)

end Registry

/-! The check -/

/-- The hash of the name of a Function node, if names are checked and it is not registered. -/
def Job.missing? (job : Job) (node : Node) : Option UInt32 :=
  match job.functions, node.kind with
  | some registry, .function name _ =>
    if registry.contains (crc32 name) then none else some (crc32 name)
  | _, _ => none

section

variable {job : Job}

theorem Job.missing_linkNotes (node : Uuid) (pin : UInt16) :
    (job.linkNotes node pin).filterMap Event.missing? = [] := by
  unfold linkNotes
  split <;> rfl

theorem Job.missing_readNotes (node : Node) :
    (job.readNotes node).filterMap Event.missing? = [] := by
  rw [readNotes, List.filterMap_flatMap, List.flatMap_eq_nil_iff]
  intro pin _
  unfold inputNotes
  cases job.graph.linkInto? node.uuid pin with
  | none => rfl
  | some link =>
    dsimp only
    cases job.graph.node? link.fromNode with
    | none => rfl
    | some source =>
      dsimp only
      split <;> rfl

/-- A node tells of the function that it calls, if that is not registered. -/
theorem Job.missing_nameNotes (node : Node) :
    (job.nameNotes node).filterMap Event.missing? = (job.missing? node).toList := by
  unfold nameNotes missing?
  cases job.functions with
  | none => rfl
  | some registry =>
    cases node.kind with
    | function name argument =>
      dsimp only
      split <;> rfl
    | _ => rfl

/-- A branching node calls no function. -/
theorem Job.missing?_of_branches {node : Node} (double : node.type.branches = true) :
    job.missing? node = none := by
  unfold missing?
  cases kind : node.kind with
  | function name argument =>
    rw [Node.type, kind] at double
    cases double
  | _ => cases job.functions <;> rfl

/-- A chain tells of the functions of its nodes that are not registered. -/
theorem Chain.missing_notes {placed after : List Uuid} {target : Option Uuid} {chain : Chain}
    (laid : Chain.Lays job.graph placed target chain after) :
    (chain.notes job).filterMap Event.missing? = chain.nodes.filterMap job.missing? := by
  induction laid with
  | stop | jump => rfl
  | @step placed after uuid node rest fresh found entered single next ih =>
    simp only [notes, nodes, List.filterMap_append, Job.missing_readNotes, Job.missing_nameNotes,
      Job.missing_linkNotes, ih, List.nil_append]
    cases told : job.missing? node <;> simp [told]
  | @branch placed middle after uuid node first second fresh found entered double holds fails
      ihFirst ihSecond =>
    simp only [notes, nodes, List.filterMap_append, Job.missing_readNotes, Job.missing_linkNotes,
      ihFirst, ihSecond, List.nil_append, List.filterMap_cons, Job.missing?_of_branches double]

/-- The entries tell of the functions of the placed nodes that are not registered. -/
theorem Job.missing_entryNotes {triggers : List Trigger} {placed after : List Uuid}
    {layout : Layout} (laid : Chain.LaysAll job.graph triggers placed layout after) :
    (layout.flatMap job.entryNotes).filterMap Event.missing? =
      layout.nodes.filterMap job.missing? := by
  induction laid with
  | done => rfl
  | skip unlinked others ih => exact ih
  | @lead placed middle after trigger rest target chain layout linked laid others ih =>
    rw [List.flatMap_cons, List.filterMap_append, ih, entryNotes, List.filterMap_append,
      missing_linkNotes, List.nil_append, List.filterMap_cons_none rfl, Chain.missing_notes laid,
      Layout.nodes, Layout.nodes, List.flatMap_cons, List.filterMap_append]

end

/-- A compilation tells of the functions of the placed nodes that are not registered. -/
theorem Job.missing_of_compile {job : Job} {uuid : Uuid} {script : Script}
    (compiled : (job.compile uuid).value = .ok script) {layout : Layout} {after : List Uuid}
    (success : Chain.ofGraph job.graph job.asset = .ok layout)
    (laid : Chain.LaysAll job.graph Trigger.all [] layout after) :
    (job.compile uuid).events.filterMap Event.missing? =
      layout.nodes.filterMap job.missing? := by
  rw [Job.events_of_compile compiled success, List.cons_append, List.filterMap_cons_none rfl,
    List.filterMap_append, missing_entryNotes laid]
  exact List.append_nil _

/-! The globals -/

namespace Variable

theorem mem_of_mem_declareAll {vars more : List Variable} {v : Variable}
    (member : v ∈ declareAll vars more) : v ∈ vars ∨ v ∈ more := by
  induction more generalizing vars with
  | nil => exact .inl member
  | cons w rest ih =>
    rcases ih member with declared | later
    · unfold declare at declared
      split at declared
      · exact .inl declared
      · rcases List.mem_append.mp declared with before | new
        · exact .inl before
        · exact .inr (List.mem_cons.mpr (.inl (List.mem_singleton.mp new)))
    · exact .inr (List.mem_cons_of_mem _ later)

end Variable

/-- Only a Function node asks for a function. -/
theorem Node.function_demands {g : Graph} {node : Node} {hash : UInt32} :
    .function hash ∈ node.demands g ↔
      ∃ name argument, node.kind = .function name argument ∧ crc32 name = hash := by
  have read (input : Input) : .function hash ∉ input.demands := by
    cases input <;> simp [Input.demands]
  unfold demands
  cases node.kind with
  | compare op => simp [read]
  | function name argument => simp [eq_comm]
  | _ => simp

theorem Chain.mem_demands {g : Graph} {chain : Chain} {v : Variable} :
    v ∈ chain.demands g ↔ ∃ node ∈ chain.nodes, v ∈ node.demands g := by
  induction chain with
  | stop | jump => simp [demands, nodes]
  | step node rest ih => simp [demands, nodes, ih]
  | branch node first second firstIh secondIh =>
    simp [demands, nodes, firstIh, secondIh, or_and_right, exists_or]

namespace Layout

variable {g : Graph} {after : List Uuid} {layout : Layout}

theorem mem_vars {v : Variable} :
    v ∈ layout.vars g ↔ ∃ node ∈ layout.nodes, v ∈ node.demands g := by
  refine ⟨fun member => ?_, fun ⟨node, member, asked⟩ => demands_subset member asked⟩
  have asked := (Variable.mem_of_mem_declareAll member).resolve_left List.not_mem_nil
  obtain ⟨entry, inside, asked⟩ := List.mem_flatMap.mp asked
  obtain ⟨node, member, asked⟩ := Chain.mem_demands.mp asked
  exact ⟨node, List.mem_flatMap.mpr ⟨entry, inside, member⟩, asked⟩

/-- A unit has a global for each function that its nodes call. -/
theorem function_vars {hash : UInt32} :
    .function hash ∈ layout.vars g ↔
      ∃ node ∈ layout.nodes, ∃ name argument, node.kind = .function name argument ∧
        crc32 name = hash := by
  simp only [mem_vars, Node.function_demands]

end Layout

/-- The missing functions of the placed nodes are those that the unit asks for. -/
theorem Layout.mem_missing {g : Graph} (asset : String) {registry : Registry} {layout : Layout}
    {hash : UInt32} :
    hash ∈ layout.nodes.filterMap (Job.missing? ⟨g, asset, some registry⟩) ↔
      .function hash ∈ layout.vars g ∧ registry.contains hash = false := by
  rw [List.mem_filterMap, function_vars]
  constructor
  · rintro ⟨node, member, found⟩
    unfold Job.missing? at found
    cases kind : node.kind with
    | function name value =>
      simp only [kind] at found
      split at found
      · cases found
      · next unknown =>
        obtain rfl := Option.some.inj found
        exact ⟨⟨node, member, name, value, kind, rfl⟩, Bool.eq_false_iff.mpr unknown⟩
    | _ => simp [kind] at found
  · rintro ⟨⟨node, member, name, value, kind, rfl⟩, unknown⟩
    exact ⟨node, member, by simp [Job.missing?, kind, unknown]⟩

/-! Loading -/

namespace Journal

/-- What a journal holds beyond an earlier one. -/
def since (k j : Journal) : List Entry := k.entries.toList.drop j.entries.size

theorem since_reportAll (j : Journal) (events : List Event) :
    (j.reportAll events).since j = events.map .event := by
  have appended (j : Journal) : (j.reportAll events).entries.toList =
      j.entries.toList ++ events.map .event := by
    induction events generalizing j with
    | nil => exact (List.append_nil _).symm
    | cons event rest ih =>
      refine (ih (j.report event)).trans ?_
      simp [report, add]
  rw [since, appended, ← Array.length_toList, List.drop_left]

end Journal

namespace Instance

variable {τ : Type}

/-- Loading a script tells of the functions that its globals refer to and that are not
registered. -/
theorem mem_missing_bind (i : Instance τ) {script : Script} (registry : Registry) (config : Config)
    (j : Journal) {vars : List Variable}
    (declared : script.program.globals = (table vars).map Declaration.global) {hash : UInt32} :
    hash ∈ ((i.bind script registry config j).2.since j).filterMap Entry.missing? ↔
      .function hash ∈ vars ∧ registry.contains hash = false := by
  have told : hash ∈ (bindingEvents i.owner registry script).filterMap Event.missing? ↔
      .function hash ∈ vars ∧ registry.contains hash = false := by
    simp only [bindingEvents, declared, table, List.map_toArray, List.map_map, List.filterMap_map,
      List.filterMap_filterMap, List.mem_filterMap]
    constructor
    · rintro ⟨v, member, found⟩
      cases v with
      | counter node | result node => cases found
      | function other =>
        cases known : registry.contains other with
        | true => simp [Variable.declaration, Variable.kind, known] at found
        | false =>
          obtain rfl : other = hash := by
            simpa [Variable.declaration, Variable.kind, known, Event.missing?] using found
          exact ⟨member, known⟩
    · rintro ⟨member, unknown⟩
      refine ⟨_, member, ?_⟩
      simp [Variable.declaration, Variable.kind, unknown, Event.missing?]
  have others : ∀ clamped : List Event, (∀ event ∈ clamped, event.missing? = none) →
      (hash ∈ (bindingEvents i.owner registry script ++ clamped).filterMap Event.missing? ↔
        hash ∈ (bindingEvents i.owner registry script).filterMap Event.missing?) := by
    intro clamped quiet
    rw [List.filterMap_append, List.filterMap_eq_nil_iff.mpr quiet, List.append_nil]
  rw [← told, bind, Journal.since_reportAll, List.filterMap_map, List.append_assoc]
  refine others _ fun event member => ?_
  rcases List.mem_append.mp member with member | member
  · split at member
    · cases member
    · rw [List.mem_singleton.mp member]
      rfl
  · rw [List.mem_singleton.mp member]
    rfl

end Instance

/-! Calls -/

/-- Whether an entry tells of a call of an undefined function. -/
def Entry.isMiss : Entry → Bool
  | event (.undefinedCall _) => true
  | _ => false

/-- How many calls have been of undefined functions. -/
def Journal.misses (j : Journal) : Nat := j.entries.toList.countP Entry.isMiss

theorem Journal.misses_add (j : Journal) {entry : Entry} (hit : entry.isMiss = false) :
    (j.add entry).misses = j.misses := by
  simp [misses, add, hit]

namespace Machine

variable {τ : Type}

/-- Every call of a program refers to a function that is bound. -/
def Linked (program : Program) (m : Machine τ) : Prop :=
  ∀ (pc : Nat) function argument result,
    program.code[pc]? = some (.call function argument result) →
    (m.bound[function.toNat]?.join).isSome

variable [Elapsed τ] {program : Program} {frame : τ} {pc : Addr} {m : Machine τ} {j : Journal}

theorem StepsTo.bound {result : Step τ} (steps : StepsTo program frame pc m j result) :
    result.machine.bound = m.bound := by
  cases result with
  | next | stop => exact steps.spares.1

theorem bound_run (budget steps : Nat) (pc : Addr) (m : Machine τ) (j : Journal) :
    (run program frame budget steps pc m j).2.1.bound = m.bound := by
  fun_induction run program frame budget steps pc m j with
  | case1 pc m j => rfl
  | case2 steps pc m j pc' m' j' next ih => exact ih.trans (stepsTo_iff.mpr next).bound
  | case3 steps pc m j pace m' j' stop => exact (stepsTo_iff.mpr stop).bound

theorem Moves.bound {n : Nat} {pc' : Addr} {m' : Machine τ} {j' : Journal}
    (moves : Moves program frame n pc m j pc' m' j') : m'.bound = m.bound := by
  induction moves with
  | refl => rfl
  | next first rest ih => exact ih.trans (stepsTo_iff.mpr first).bound

/-- A call whose function is bound is a call of that function. -/
theorem step_call {function result : Slot} {argument : Operand} {f : UserFunction}
    (found : program.code[pc.toNat]? = some (.call function argument result))
    (bound : m.bound[function.toNat]?.join = some f) (j : Journal) :
    step program frame pc m j =
      .next (pc + 1)
        (m.setGlobal result (j.call f (m.read argument).toUInt64.toUInt32).2.toInt64)
        (j.call f (m.read argument).toUInt64.toUInt32).1 :=
  (StepsTo.call found bound).step_eq

theorem Linked.step (linked : m.Linked program) {result : Step τ}
    (steps : StepsTo program frame pc m j result) : result.journal.misses = j.misses := by
  cases steps with
  | outside | unroomy | deleteObject | sendEvent | call => exact j.misses_add rfl
  | miss found unlinked =>
    have bound := linked _ _ _ _ found
    rw [unlinked] at bound
    cases bound
  | setLocal | enter | wait | wake | goOn | branch | again | leave | jump | finish => rfl

theorem Linked.run (linked : m.Linked program) (budget steps : Nat) (pc : Addr) (j : Journal) :
    (Machine.run program frame budget steps pc m j).2.2.misses = j.misses := by
  fun_induction Machine.run program frame budget steps pc m j with
  | case1 pc m j => exact j.misses_add rfl
  | case2 steps pc m j pc' m' j' next ih =>
    have kept : m'.bound = m.bound := (stepsTo_iff.mpr next).bound
    have linked' : m'.Linked program := by
      unfold Linked
      rw [kept]
      exact linked
    exact (ih linked').trans (linked.step (stepsTo_iff.mpr next))
  | case3 steps pc m j pace m' j' stop => exact linked.step (stepsTo_iff.mpr stop)

end Machine

namespace Instance

variable {τ : Type} {i : Instance τ} {script : Script}

/-- What a loaded instance keeps until the next loading: its script and what is bound. -/
structure Keeps (script : Script) (bound : Array (Option UserFunction)) (i : Instance τ) :
    Prop where
  script : i.script = some script
  bound : i.machine.bound = bound

variable [Elapsed τ] {bound : Array (Option UserFunction)}

theorem bound_update (i : Instance τ) (frame : τ) (j : Journal) :
    (i.update frame j).1.machine.bound = i.machine.bound := by
  rcases i.update_cases frame with ⟨-, same⟩ | ⟨-, script, -, turns⟩
  · rw [same]
  · rw [turns]
    refine (bound_settle ..).trans ?_
    unfold Machine.resume
    cases i.machine.pc with
    | none => rfl
    | some pc => exact Machine.bound_run ..

theorem script_update (i : Instance τ) (frame : τ) (j : Journal) :
    (i.update frame j).1.script = i.script := by
  rcases i.update_cases frame with ⟨-, same⟩ | ⟨-, script, -, turns⟩
  · rw [same]
  · rw [turns]
    exact script_settle ..

theorem Keeps.perform (keeps : i.Keeps script bound) {operation : Operation τ}
    (stays : operation.config? = none) (j : Journal) :
    (i.perform j operation).1.Keeps script bound := by
  cases operation with
  | load | loadAsset => cases stays
  | update frame =>
    exact ⟨(i.script_update ..).trans keeps.script, (i.bound_update ..).trans keeps.bound⟩
  | trigger trigger =>
    rcases i.trigger_cases trigger j with ⟨same, -⟩ | ⟨_, _, ⟨_, started⟩ | ⟨_, _, queued⟩⟩
    · rw [Instance.perform, same]
      exact keeps
    · rw [Instance.perform, started]
      exact ⟨keeps.script, keeps.bound⟩
    · rw [Instance.perform, queued]
      exact ⟨keeps.script, keeps.bound⟩
  | takeCommands => exact ⟨keeps.script, keeps.bound⟩

theorem Keeps.misses (keeps : i.Keeps script bound) (linked : i.machine.Linked script.program)
    {operation : Operation τ} (stays : operation.config? = none) (j : Journal) :
    (i.perform j operation).2.misses = j.misses := by
  cases operation with
  | load | loadAsset => cases stays
  | update frame =>
    rcases i.update_turn keeps.script frame j with
      ⟨-, quiet⟩ | ⟨entry, pace, m, k, under, -, ran, settled⟩
    · rw [Instance.perform, quiet]
    · have missed := @Machine.Linked.run _ _ script.program frame i.machine linked
        i.config.maxStepsPerResume i.config.maxStepsPerResume entry j
      rw [ran] at missed
      rw [Instance.perform, settled]
      exact missed
  | trigger trigger =>
    have fires := i.triggersTo_trigger trigger j
    rw [Instance.perform]
    generalize i.trigger trigger j = result at fires ⊢
    cases fires with
    | unloaded | entryless | refuse => exact j.misses_add rfl
    | start | queue => rfl
  | takeCommands => rfl

theorem Keeps.performAll (keeps : i.Keeps script bound) (operations : List (Operation τ))
    (stay : ∀ operation ∈ operations, operation.config? = none)
    (linked : ∀ m : Machine τ, m.bound = bound → m.Linked script.program) (j : Journal) :
    (Instance.performAll operations i j).1.Keeps script bound ∧
      (Instance.performAll operations i j).2.misses = j.misses := by
  induction operations generalizing i j with
  | nil => exact ⟨keeps, rfl⟩
  | cons operation rest ih =>
    obtain ⟨first, others⟩ := List.forall_mem_cons.mp stay
    obtain ⟨keeps', missed⟩ := ih (keeps.perform first j) others (i.perform j operation).2
    exact ⟨keeps', missed.trans (keeps.misses (linked _ keeps.bound) first j)⟩

/-- What is visited by an update is where moves lead from the address under way. -/
theorem moves_of_visited (stored : i.script = some script) {frame : τ} {j : Journal}
    {earlier later : List (Visited τ)} {visit : Visited τ}
    (split : i.visited j (.update frame) = earlier ++ visit :: later) :
    ∃ entry k, i.machine.pc = some entry ∧
      Machine.Moves script.program frame earlier.length entry i.machine j visit.pc visit.machine
        k := by
  rcases i.update_turn stored frame j with
    ⟨nothing, -⟩ | ⟨entry, pace, m, k, under, visited, -, -⟩
  · rw [nothing] at split
    simp at split
  · rw [visited] at split
    obtain ⟨k, left, moves, -, -⟩ := Machine.visits_split split
    exact ⟨entry, k, under, moves⟩

end Instance

theorem Instruction.eq_call_of_unaimed {instruction : Instruction} {function result : Slot}
    {argument : Operand} (same : instruction.unaimed = .call function argument result) :
    instruction = .call function argument result := by
  cases instruction with
  | call => exact same
  | _ => cases same

/-- A call stands in the block of a Function node and refers to the function of its name. -/
theorem Layout.call_cases {g : Graph} {after : List Uuid} {layout : Layout}
    (laid : Chain.LaysAll g Trigger.all [] layout after) {pc : Nat} {function result : Slot}
    {argument : Operand}
    (found : (layout.instructions g)[pc]? = some (.call function argument result)) :
    ∃ node ∈ layout.nodes, Inside g (layout.address g) node pc ∧
      ∃ name value, node.kind = .function name value ∧
        function = slotOf (layout.vars g) (.function (crc32 name)) := by
  rcases code_cases laid found with
    ⟨node, member, index, exit, rfl, short, stands⟩ | finish | ⟨target, jump⟩
  · refine ⟨node, member, ⟨Nat.le_add_right _ _, Nat.add_lt_add_left short _⟩, ?_⟩
    rcases List.mem_append.mp (List.mem_of_getElem? stands) with bound | performed
    · have unwritten := Node.writes?_bindings bound
      cases unwritten
    · unfold Node.operation at performed
      cases kind : node.kind with
      | function name value =>
        simp only [kind, List.mem_singleton, Instruction.call.injEq] at performed
        exact ⟨name, value, rfl, performed.1⟩
      | _ => simp [kind] at performed
  · cases finish
  · cases jump

/-- The function of a global is the one registered last under its hash. -/
theorem Instance.bindFunctions_slotOf {script : Script} {vars : List Variable}
    (declared : script.program.globals = (table vars).map Declaration.global)
    (few : vars.length ≤ 65536) (registry : Registry) {hash : UInt32}
    (member : .function hash ∈ vars) :
    (bindFunctions registry script)[(slotOf vars (.function hash)).toNat]?.join =
      registry.resolve? hash := by
  simp [bindFunctions, declared, table, Variable.getElem?_slotOf member few, Variable.declaration,
    Variable.kind]

/-- If all functions that a unit asks for are registered, a call in its code stands in the block of
a Function node and goes to the function registered last for the name of the node. -/
theorem Layout.call_bound {g : Graph} {after : List Uuid} {layout : Layout}
    (laid : Chain.LaysAll g Trigger.all [] layout after) (few : (layout.vars g).length ≤ 65535)
    {script : Script}
    (emitted : unaimed script.program.code.toList = unaimed (layout.instructions g))
    (declared : script.program.globals = (table (layout.vars g)).map Declaration.global)
    {registry : Registry}
    (registered : ∀ hash, .function hash ∈ layout.vars g → registry.contains hash = true)
    {pc : Nat} {function result : Slot} {argument : Operand}
    (found : script.program.code[pc]? = some (.call function argument result)) :
    ∃ node ∈ layout.nodes, Inside g (layout.address g) node pc ∧
      ∃ name value f, node.kind = .function name value ∧ registry.Latest (crc32 name) f ∧
        (Instance.bindFunctions registry script)[function.toNat]?.join = some f := by
  have counterpart := getElem?_unaimed emitted pc
  rw [found, Option.map_some, eq_comm, Option.map_eq_some_iff] at counterpart
  obtain ⟨closed, found', same⟩ := counterpart
  obtain rfl := Instruction.eq_call_of_unaimed same
  obtain ⟨node, member, inside, name, value, kind, rfl⟩ := call_cases laid found'
  have asked : .function (crc32 name) ∈ layout.vars g :=
    function_vars.mpr ⟨node, member, name, value, kind, rfl⟩
  obtain ⟨f, resolved⟩ := Option.isSome_iff_exists.mp (registered _ asked)
  have bound := Instance.bindFunctions_slotOf declared (Nat.le_succ_of_le few) registry asked
  exact ⟨node, member, inside, name, value, f, kind, Registry.resolve?_eq_some_iff.mp resolved,
    bound.trans resolved⟩

/-- A call that is run behind the journal `k` is made by a Function node. It goes to the function
registered last for the name of the node, and its result is kept. -/
def Visited.CallsLatest {τ : Type} [Elapsed τ] (g : Graph) (layout : Layout) (registry : Registry)
    (program : Program) (frame : τ) (visit : Visited τ) (argument : Operand) (result : Slot)
    (k : Journal) : Prop :=
  ∃ node name value f, g.node? node.uuid = some node ∧
    Inside g (layout.address g) node visit.pc.toNat ∧ node.kind = .function name value ∧
    registry.Latest (crc32 name) f ∧
    let called := k.call f (visit.machine.read argument).toUInt64.toUInt32
    Machine.step program frame visit.pc visit.machine k =
      .next (visit.pc + 1) (visit.machine.setGlobal result called.2.toInt64) called.1

/-- The check of names foretells the run. For a graph that compiles, compiling it with a registry
tells of the same missing functions as loading its unit with that registry does. If none is missing,
then from the loading on, whatever updates and triggers there are, no undefined function is called,
and each call is made by a Function node and goes to the function registered last for its name. -/
theorem checked_names_are_bound {nodes : List Node} {links : List Link} {g : Graph}
    (accepted : Graph.ofParts nodes links = .ok g) {asset : String} {registry : Registry}
    {uuid : Uuid} {script : Script}
    (compiled : (Job.compile ⟨g, asset, some registry⟩ uuid).value = .ok script) :
    let told := (Job.compile ⟨g, asset, some registry⟩ uuid).events.filterMap Event.missing?
    ∃ layout : Layout, Chain.ofGraph g asset = .ok layout ∧
      ∀ {τ : Type} [Elapsed τ] (i : Instance τ) (config : Config) (start : Journal),
        let loaded := i.bind script registry config start
        (∀ hash, hash ∈ told ↔ hash ∈ (loaded.2.since start).filterMap Entry.missing?) ∧
        (told = [] → ∀ operations : List (Operation τ),
          (∀ operation ∈ operations, operation.config? = none) →
          let reached := Instance.performAll operations loaded.1 loaded.2
          reached.2.misses = loaded.2.misses ∧
          ∀ (frame : τ) (earlier : List (Visited τ)) visit later function argument result,
            reached.1.visited reached.2 (.update frame) = earlier ++ visit :: later →
            script.program.code[visit.pc.toNat]? = some (.call function argument result) →
            ∃ entry k, reached.1.machine.pc = some entry ∧
              Machine.Moves script.program frame earlier.length entry reached.1.machine reached.2
                visit.pc visit.machine k ∧
              visit.CallsLatest g layout registry script.program frame argument result k) := by
  intro told
  have formed := Graph.wellFormed_of_ofParts accepted
  obtain ⟨layout, after, success, laid, few, emitted, declared⟩ :=
    Job.unaimed_of_compile formed compiled
  have told_iff (hash : UInt32) :
      hash ∈ told ↔ .function hash ∈ layout.vars g ∧ registry.contains hash = false := by
    rw [← Layout.mem_missing asset, ← Job.missing_of_compile compiled success laid]
  refine ⟨layout, success, fun {τ} _ i config start => ⟨fun hash => ?_, ?_⟩⟩
  · rw [told_iff, i.mem_missing_bind registry config start declared]
  · intro none_told operations stay
    have registered (hash : UInt32) (member : .function hash ∈ layout.vars g) :
        registry.contains hash = true := by
      by_contra unknown
      have absent := (told_iff hash).mpr ⟨member, Bool.eq_false_iff.mpr unknown⟩
      rw [none_told] at absent
      cases absent
    have keeps : (i.bind script registry config start).1.Keeps script
        (Instance.bindFunctions registry script) := ⟨rfl, rfl⟩
    have linked (m : Machine τ) (same : m.bound = Instance.bindFunctions registry script) :
        m.Linked script.program := by
      intro pc function argument result found
      obtain ⟨-, -, -, -, -, f, -, -, bound⟩ :=
        Layout.call_bound laid few emitted declared registered found
      rw [same, bound]
      rfl
    obtain ⟨keeps', missed⟩ := keeps.performAll operations stay linked _
    refine ⟨missed, ?_⟩
    intro frame earlier visit later function argument result split found
    obtain ⟨node, member, inside, name, value, f, kind, latest, bound⟩ :=
      Layout.call_bound laid few emitted declared registered found
    obtain ⟨entry, k, under, moves⟩ := Instance.moves_of_visited keeps'.script split
    rw [← keeps'.bound, ← moves.bound] at bound
    exact ⟨entry, k, under, moves, node, name, value, f, (laid.node_mem node member).1, inside,
      kind, latest, Machine.step_call found bound k⟩

/-- A graph that calls two functions whose names have one hash. -/
def Graph.twofold : Graph where
  nodes := [⟨1, .start, .origin⟩, ⟨2, .function "plumless" 5, .origin⟩,
    ⟨3, .function "buckeroo" 6, .origin⟩]
  links := [⟨1, 0, 2, 0⟩, ⟨2, 0, 3, 0⟩]

theorem Graph.twofold_accepted :
    Graph.ofParts Graph.twofold.nodes Graph.twofold.links = .ok Graph.twofold := by
  decide +kernel

/-- Functions registered twice for the hash of both names. -/
def Registry.twice : Registry :=
  (Registry.empty.register (crc32 "plumless") fun _ _ => 1).register (crc32 "buckeroo") fun _ _ => 2

/-- Without a registration both nodes and the one global tell of it, and with one no call misses. -/
theorem checked_names_are_bound_twofold :
    ∃ script script' : Script,
      (Job.compile ⟨Graph.twofold, "twofold", some .twice⟩ 9).value = .ok script ∧
      (Job.compile ⟨Graph.twofold, "twofold", some .empty⟩ 9).value = .ok script' ∧
      (∀ config start, crc32 "plumless" ∈
        ((((Instance.new 7 : Instance Millis).bind script' .empty config start).2).since
          start).filterMap Entry.missing?) ∧
      ∀ operations : List (Operation Millis),
        (∀ operation ∈ operations, operation.config? = none) →
        let loaded := (Instance.new 7).bind script .twice .standard .empty
        (Instance.performAll operations loaded.1 loaded.2).2.misses = loaded.2.misses := by
  have formed := Graph.wellFormed_of_ofParts Graph.twofold_accepted
  obtain ⟨script, compiled⟩ :=
    @Job.compile_of_small ⟨Graph.twofold, "twofold", some .twice⟩ formed (by decide) 9
  obtain ⟨script', compiled'⟩ :=
    @Job.compile_of_small ⟨Graph.twofold, "twofold", some .empty⟩ formed (by decide) 9
  obtain ⟨_, -, law⟩ := checked_names_are_bound Graph.twofold_accepted compiled
  obtain ⟨_, -, law'⟩ := checked_names_are_bound Graph.twofold_accepted compiled'
  refine ⟨script, script', compiled, compiled', fun config start => ?_, fun operations stay => ?_⟩
  · exact ((law' _ config start).1 _).mp (by decide +kernel)
  · exact ((law _ .standard .empty).2 (by decide +kernel) operations stay).1

end NodeScript
