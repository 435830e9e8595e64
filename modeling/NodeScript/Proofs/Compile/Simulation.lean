import NodeScript.Proofs.Compile.Placement
import NodeScript.Proofs.Execution.Steps
import NodeScript.Proofs.Graph.Walk

/-!
One visit of a walk against the block of the node. A machine agrees with a walk if its globals hold
the counters and last results of the walk; then the block leads to where the visit goes on, issues
the same effects, and pauses where the visit pauses.
-/
namespace NodeScript

/-- The value of a variable in a walk. -/
def Walk.valueOf {τ : Type} (w : Walk τ) : Variable → Int64
  | .counter node => Int64.ofNat (w.counters node)
  | .result node => (w.results node).toInt64
  | .function _ => 0

/-- The function that a variable refers to. -/
def Registry.boundTo (registry : Registry) : Variable → Option UserFunction
  | .function hash => registry.resolve? hash
  | _ => none

/-- The machine of a unit holds what the walk holds. -/
structure Agrees {τ : Type} (g : Graph) (layout : Layout) (registry : Registry) (w : Walk τ)
    (m : Machine τ) : Prop where
  owner : m.owner = w.owner
  slept : m.slept = w.slept
  globals : m.globals.toList = (layout.vars g).map w.valueOf
  bound : m.bound.toList = (layout.vars g).map registry.boundTo
  room : layout.frame g ≤ m.locals.size
  commands : m.commands.toList = w.commands
  counters : ∀ node, w.counters node < UInt32.size

private theorem map_update_eq_set {α β : Type} [DecidableEq α] {list : List α}
    (distinct : list.Nodup) (f : α → β) {a : α} (member : a ∈ list) (b : β) :
    list.map (Function.update f a b) = (list.map f).set (list.idxOf a) b := by
  induction list with
  | nil => simp at member
  | cons first rest ih =>
    obtain ⟨new, distinct⟩ := List.nodup_cons.mp distinct
    by_cases same : first = a
    · subst same
      have others : ∀ other ∈ rest, Function.update f first b other = f other :=
        fun other inside => Function.update_of_ne (ne_of_mem_of_not_mem inside new) _ _
      simp [List.map_congr_left others]
    · rcases List.mem_cons.mp member with rfl | member
      · exact absurd rfl same
      · simp [ih distinct member, List.idxOf_cons_ne _ same, Function.update_of_ne same]

theorem toUInt32_add_one (pc : Nat) : pc.toUInt32 + 1 = (pc + 1).toUInt32 := by
  simp [Nat.toUInt32_eq, UInt32.ofNat_add]

namespace Agrees

variable {τ : Type} {g : Graph} {after : List Uuid} {layout : Layout} {registry : Registry}
  {w : Walk τ} {m : Machine τ}

/-- A variable is read from its slot. -/
theorem read_slot (agrees : Agrees g layout registry w m) (closed : layout.Closed g after)
    {v : Variable} (member : v ∈ layout.vars g) :
    m.globals[(Variable.slotOf (layout.vars g) v).toNat]? = some (w.valueOf v) := by
  have few := closed.few
  rw [← Array.getElem?_toList, agrees.globals, List.getElem?_map,
    Variable.getElem?_slotOf member (by omega)]
  rfl

theorem read_bound (agrees : Agrees g layout registry w m) (closed : layout.Closed g after)
    {v : Variable} (member : v ∈ layout.vars g) :
    m.bound[(Variable.slotOf (layout.vars g) v).toNat]?.join = registry.boundTo v := by
  have few := closed.few
  rw [← Array.getElem?_toList, agrees.bound, List.getElem?_map,
    Variable.getElem?_slotOf member (by omega)]
  rfl

/-- Writing a variable changes its value alone. -/
theorem globals_setGlobal (agrees : Agrees g layout registry w m) (closed : layout.Closed g after)
    {v : Variable} (member : v ∈ layout.vars g) (value : Int64) :
    (m.setGlobal (Variable.slotOf (layout.vars g) v) value).globals.toList =
      (layout.vars g).map (Function.update w.valueOf v value) := by
  have few := closed.few
  rw [map_update_eq_set (Layout.nodup_vars g layout) _ member, ← agrees.globals,
    ← Variable.slotOf_toNat member (by omega)]
  simp [Machine.setGlobal]

theorem setCounter (agrees : Agrees g layout registry w m) (closed : layout.Closed g after)
    {node : Uuid} (member : .counter node ∈ layout.vars g) (count : Nat)
    (small : count < UInt32.size) :
    Agrees g layout registry (w.setCounter node count)
      (m.setGlobal (Variable.slotOf (layout.vars g) (.counter node)) (Int64.ofNat count)) where
  owner := agrees.owner
  slept := agrees.slept
  globals := by
    rw [agrees.globals_setGlobal closed member]
    congr 1
    funext v
    cases v with
    | counter other => by_cases same : other = node <;>
        simp [Walk.valueOf, Walk.setCounter, same]
    | result other => simp [Walk.valueOf, Walk.setCounter]
    | function hash => simp [Walk.valueOf]
  bound := agrees.bound
  room := agrees.room
  commands := agrees.commands
  counters := by
    intro other
    by_cases same : other = node
    · simpa [Walk.setCounter, same] using small
    · simpa [Walk.setCounter, same] using agrees.counters other

theorem setResult (agrees : Agrees g layout registry w m) (closed : layout.Closed g after)
    {node : Uuid} (member : .result node ∈ layout.vars g) (value : Int32) :
    Agrees g layout registry (w.setResult node value)
      (m.setGlobal (Variable.slotOf (layout.vars g) (.result node)) value.toInt64) where
  owner := agrees.owner
  slept := agrees.slept
  globals := by
    rw [agrees.globals_setGlobal closed member]
    congr 1
    funext v
    cases v with
    | result other => by_cases same : other = node <;>
        simp [Walk.valueOf, Walk.setResult, same]
    | counter other => simp [Walk.valueOf, Walk.setResult]
    | function hash => simp [Walk.valueOf]
  bound := agrees.bound
  room := agrees.room
  commands := agrees.commands
  counters := agrees.counters

theorem issue (agrees : Agrees g layout registry w m) (command : Command) :
    Agrees g layout registry (w.issue command) (m.issue command) where
  owner := agrees.owner
  slept := agrees.slept
  globals := agrees.globals
  bound := agrees.bound
  room := agrees.room
  commands := by simp [Machine.issue, Walk.issue, agrees.commands]
  counters := agrees.counters

/-- Frames may differ, as long as they are large enough. -/
theorem frame (agrees : Agrees g layout registry w m) {locals : Array Int64}
    (size : locals.size = m.locals.size) :
    Agrees g layout registry w { m with locals } where
  owner := agrees.owner
  slept := agrees.slept
  globals := agrees.globals
  bound := agrees.bound
  room := size ▸ agrees.room
  commands := agrees.commands
  counters := agrees.counters

end Agrees

namespace Layout.Closed

variable {τ : Type} [Elapsed τ] {g : Graph} {after : List Uuid} {layout : Layout}

/-- Binding constants fills the frame from a slot on and changes nothing else. -/
theorem moves_bindings (closed : layout.Closed g after) (frame : τ) (j : Journal)
    (constants : List Constant) {pc : Nat} (slot : Nat) (m : Machine τ)
    (stands : Placed (layout.instructions g) pc (Node.bindings slot constants))
    (room : slot + constants.length ≤ m.locals.size) (small : slot + constants.length ≤ 65536) :
    ∃ locals : Array Int64, locals.size = m.locals.size ∧
      (∀ index < slot, locals[index]? = m.locals[index]?) ∧
      (∀ index < constants.length,
        locals[slot + index]? = constants[index]?.map Constant.value) ∧
      Machine.Moves (layout.program g) frame constants.length pc.toUInt32 m j
        (pc + constants.length).toUInt32 { m with locals } j := by
  induction constants generalizing pc slot m with
  | nil => exact ⟨m.locals, rfl, fun _ _ => rfl, by simp, .refl ..⟩
  | cons constant rest ih =>
    simp only [List.length_cons] at room small
    have small' : slot < UInt16.size := Nat.lt_of_lt_of_le (by omega) small
    have exact : slot.toUInt16.toNat = slot := UInt16.toNat_ofNat_of_lt' small'
    have first : Machine.step (layout.program g) frame pc.toUInt32 m j =
        .next (pc + 1).toUInt32
          { m with locals := m.locals.setIfInBounds slot constant.value } j := by
      rw [(Machine.StepsTo.setLocal (closed.fetch stands.head) (by omega)).step_eq, exact,
        toUInt32_add_one]
    have behind : Placed (layout.instructions g) (pc + 1) (Node.bindings (slot + 1) rest) :=
      stands.tail
    obtain ⟨locals, size, before, bound, moves⟩ :=
      ih (slot + 1) { m with locals := m.locals.setIfInBounds slot constant.value } behind
        (by simp; omega) (by omega)
    refine ⟨locals, by simpa using size, fun index below => ?_, fun index inside => ?_, ?_⟩
    · rw [before index (by omega), Array.getElem?_setIfInBounds_ne (by omega)]
    · cases index with
      | zero =>
        rw [Nat.add_zero, before slot (by omega),
          Array.getElem?_setIfInBounds_self_of_lt (by omega)]
        rfl
      | succ index =>
        rw [← Nat.add_assoc, Nat.add_right_comm, bound index (by simpa using inside)]
        simp
    · have onward := Machine.Moves.next first moves
      rw [Nat.add_assoc, Nat.add_comm 1] at onward
      exact onward

end Layout.Closed

section

variable {τ : Type} {g : Graph} {after : List Uuid} {layout : Layout} {registry : Registry}

/-- An execution that pauses at a node: the machine stands at the pause, and the node has bound its
length. -/
structure Asleep (g : Graph) (layout : Layout) (m : Machine τ) (node : Node) (time : Binary32) :
    Prop where
  member : node ∈ layout.nodes
  kind : node.kind = .wait time
  pc : m.pc = some (layout.address g node.uuid + 1).toUInt32
  bound : m.locals[0]? = some (pauseLength time)
  slept : m.slept.isSome

variable [Elapsed τ]

/-- From a point of its execution the machine does what a visit does. -/
def Mirrors (g : Graph) (after : List Uuid) (layout : Layout) (registry : Registry) (frame : τ)
    (pc : Addr) (m : Machine τ) (j : Journal) : Visit τ → Prop
  | .go next w k => ∃ n pc' m' j',
    Machine.Moves (layout.program g) frame (n + 1) pc m j pc'.toUInt32 m' j' ∧
      Leads (layout.instructions g) (layout.address g) after pc' next ∧
      Agrees g layout registry w m' ∧ m'.slept = none ∧ j'.effects = k.effects
  | .pause w k => ∃ n pc' m' j' m'' j'' node time,
    Machine.Moves (layout.program g) frame n pc m j pc' m' j' ∧
      Machine.step (layout.program g) frame pc' m' j' = .stop .suspended m'' j'' ∧
      Agrees g layout registry w m'' ∧ w.place = some node.uuid ∧
      Asleep g layout m'' node time ∧ j''.effects = k.effects

variable {w : Walk τ} {m : Machine τ} {j k : Journal} {node : Node} {exit : Nat} {frame : τ}

/-- What the machine holds when it arrives at the instruction that a node is for. -/
structure Bound (g : Graph) (layout : Layout) (registry : Registry) (w : Walk τ) (m : Machine τ)
    (node : Node) : Prop where
  agrees : Agrees g layout registry w m
  slept : m.slept = none
  locals : ∀ index < (node.constants g).length,
    m.locals[index]? = (node.constants g)[index]?.map Constant.value

theorem Agrees.moves_constants (agrees : Agrees g layout registry w m)
    (closed : layout.Closed g after) (awake : m.slept = none) (member : node ∈ layout.nodes)
    (block : BlockAt g (layout.vars g) (layout.instructions g) (layout.address g) after exit node)
    (frame : τ) (j : Journal) :
    ∃ m', Bound g layout registry w m' node ∧
      Machine.Moves (layout.program g) frame (node.constants g).length
        (layout.address g node.uuid).toUInt32 m j
        (layout.address g node.uuid + (node.constants g).length).toUInt32 m' j := by
  have enough := Nat.le_trans (Layout.length_constants_le_frame (g := g) member) agrees.room
  have few := node.length_constants_le g
  obtain ⟨locals, size, -, bound, moves⟩ := closed.moves_bindings frame j
    (node.constants g) 0 m block.block.left (by omega) (by omega)
  exact ⟨{ m with locals }, ⟨agrees.frame size, awake, by simpa using bound⟩, moves⟩

theorem BlockAt.operation {vars : List Variable} {code : List Instruction}
    {address : Uuid → Nat} (block : BlockAt g vars code address after exit node) :
    Placed code (address node.uuid + (node.constants g).length)
      (node.operation g vars exit.toUInt32) := by
  have behind := block.block.right
  rwa [Node.length_bindings] at behind

/-- What follows the instruction of a node. -/
theorem BlockAt.onward {vars : List Variable} {code : List Instruction}
    {address : Uuid → Nat} (block : BlockAt g vars code address after exit node) :
    Leads code address after
      (address node.uuid + ((node.constants g).length + (node.operation g [] 0).length))
      (g.successor? node.uuid 0) := by
  have follows := block.follows
  rwa [Node.size, Node.code, List.length_append, Node.length_bindings] at follows

/-- An instruction that goes on to where a visit does. -/
theorem Mirrors.go {pc : Addr} {pc' : Nat} {next : Option Uuid} (m' : Machine τ) (j' : Journal)
    (last : Machine.step (layout.program g) frame pc m j = .next pc'.toUInt32 m' j')
    (leads : Leads (layout.instructions g) (layout.address g) after pc' next)
    (agrees : Agrees g layout registry w m') (awake : m'.slept = none)
    (same : j'.effects = k.effects) :
    Mirrors g after layout registry frame pc m j (.go next w k) :=
  ⟨0, pc', m', j', .one last, leads, agrees, awake, same⟩

theorem Mirrors.behind {n : Nat} {pc pc' : Addr} {m' : Machine τ} {j' : Journal} {visit : Visit τ}
    (moves : Machine.Moves (layout.program g) frame n pc m j pc' m' j')
    (mirrors : Mirrors g after layout registry frame pc' m' j' visit) :
    Mirrors g after layout registry frame pc m j visit := by
  cases visit with
  | go next w k =>
    obtain ⟨more, pc'', m'', j'', further, rest⟩ := mirrors
    exact ⟨n + more, pc'', m'', j'', moves.trans further, rest⟩
  | pause w k =>
    obtain ⟨more, pc'', m'', j'', m₃, j₃, node, time, further, rest⟩ := mirrors
    exact ⟨n + more, pc'', m'', j'', m₃, j₃, node, time, moves.trans further, rest⟩

omit [Elapsed τ] in
theorem Agrees.object_eq (agrees : Agrees g layout registry w m) {operand : Operand}
    {object : UInt16}
    (read : m.read operand = Int64.ofNat object.toNat) : m.object operand = w.object object := by
  simp [Machine.object, Walk.object, read, agrees.owner]

omit [Elapsed τ] in
/-- An operand holds what the walk reads, where its copy has been bound. -/
theorem Agrees.read_operand (agrees : Agrees g layout registry w m)
    (closed : layout.Closed g after) {input : Input} {slot : Nat}
    (asked : input.demands ⊆ layout.vars g)
    (copied : ∀ value, input = .constant value → m.locals[slot.toUInt16.toNat]? = some value) :
    m.read (input.operand (layout.vars g) slot) = w.read input := by
  cases input with
  | constant value =>
    change m.locals[slot.toUInt16.toNat]?.getD 0 = value
    rw [copied value rfl]
    rfl
  | result source =>
    change m.globals[_]?.getD 0 = _
    rw [agrees.read_slot closed (asked (by simp [Input.demands]))]
    rfl

section

variable (bound : Bound g layout registry w m node) (closed : layout.Closed g after)
  (block : BlockAt g (layout.vars g) (layout.instructions g) (layout.address g) after exit node)
  (same : j.effects = k.effects)

include bound closed block same

/-- A pause is entered with the time of the frame. -/
theorem Bound.visit_wait (member : node ∈ layout.nodes) {time : Binary32}
    (kind : node.kind = .wait time) :
    Mirrors g after layout registry frame
      (layout.address g node.uuid + (node.constants g).length).toUInt32 m j
      (w.visit g registry frame node k) := by
  have operation := block.operation
  have length := bound.locals 0
  have quiet : w.slept = none := bound.agrees.slept.symm.trans bound.slept
  simp only [Node.constants, Node.operation, kind, List.length_singleton] at operation length ⊢
  have paused : Machine.step (layout.program g) frame
      (layout.address g node.uuid + 1).toUInt32 m j =
        .stop .suspended { m with
          pc := some (layout.address g node.uuid + 1).toUInt32
          slept := some frame } j :=
    (Machine.StepsTo.enter (closed.fetch operation.head) bound.slept).step_eq
  simp only [Walk.visit, kind, quiet]
  have entered : Agrees g layout registry
      { w with place := some node.uuid, slept := some frame } { m with
        pc := some (layout.address g node.uuid + 1).toUInt32
        slept := some frame } :=
    { bound.agrees with slept := rfl }
  exact ⟨0, _, m, j, _, j, node, time, .refl .., paused, entered,
    rfl, ⟨member, kind, rfl, by simpa using length, rfl⟩, same⟩

theorem Bound.visit_deleteObject {object : UInt16} (kind : node.kind = .deleteObject object) :
    Mirrors g after layout registry frame
      (layout.address g node.uuid + (node.constants g).length).toUInt32 m j
      (w.visit g registry frame node k) := by
  have operation := block.operation
  have follows := block.onward
  have locals := bound.locals
  simp only [Node.constants, Node.operation, kind, List.length_singleton]
    at operation follows locals ⊢
  have target : m.object (.frame 0) = w.object object :=
    bound.agrees.object_eq (by simp [Machine.read, locals])
  simp only [Walk.visit, kind]
  refine Mirrors.go (m.issue (.deleteObject (w.object object)))
    (j.add (.command (.deleteObject (w.object object)))) ?_ follows (bound.agrees.issue _)
    bound.slept (by simp [same])
  rw [(Machine.StepsTo.deleteObject (closed.fetch operation.head)).step_eq, target,
    toUInt32_add_one]

theorem Bound.visit_sendEvent {object eventType : UInt16} {value : UInt32}
    (kind : node.kind = .sendEvent object eventType value) :
    Mirrors g after layout registry frame
      (layout.address g node.uuid + (node.constants g).length).toUInt32 m j
      (w.visit g registry frame node k) := by
  have operation := block.operation
  have follows := block.onward
  have locals := bound.locals
  simp only [Node.constants, Node.operation, kind, List.length_cons, List.length_nil]
    at operation follows locals ⊢
  have target : m.object (.frame 0) = w.object object :=
    bound.agrees.object_eq (by simp [Machine.read, locals])
  have type : (m.read (.frame 1)).toUInt64.toUInt16 = eventType := by simp [Machine.read, locals]
  have payload : (m.read (.frame 2)).toUInt64.toUInt32 = value := by simp [Machine.read, locals]
  simp only [Walk.visit, kind]
  refine Mirrors.go (m.issue (.sendEvent (w.object object) w.owner eventType value))
    (j.add (.command (.sendEvent (w.object object) w.owner eventType value))) ?_ follows
    (bound.agrees.issue _) bound.slept (by simp [same])
  rw [(Machine.StepsTo.sendEvent (closed.fetch operation.head) rfl).step_eq, target, type, payload,
    bound.agrees.owner, toUInt32_add_one]

/-- A function that is not registered gives zero. -/
theorem Bound.visit_function (member : node ∈ layout.nodes) {name : String} {argument : UInt32}
    (kind : node.kind = .function name argument) :
    Mirrors g after layout registry frame
      (layout.address g node.uuid + (node.constants g).length).toUInt32 m j
      (w.visit g registry frame node k) := by
  have operation := block.operation
  have follows := block.onward
  have locals := bound.locals
  have asked := Layout.demands_subset (g := g) member
  simp only [Node.constants, Node.operation, Node.demands, kind, List.length_singleton]
    at operation follows locals asked ⊢
  have target := bound.agrees.read_bound closed (asked (List.mem_cons_self ..))
  have passed : (m.read (.frame 0)).toUInt64.toUInt32 = argument := by
    simp [Machine.read, locals]
  have kept : ∀ value : Int32, Agrees g layout registry (w.setResult node.uuid value)
      (m.setGlobal (Variable.slotOf (layout.vars g) (.result node.uuid)) value.toInt64) :=
    fun value => bound.agrees.setResult closed (asked (by simp)) value
  simp only [Walk.visit, kind]
  cases found : registry.resolve? (crc32 name) with
  | some f =>
    have result := Journal.call_congr same f argument
    refine Mirrors.go _ (j.call f argument).1 ?_ follows (kept _) bound.slept
      (by simp [same])
    rw [(Machine.StepsTo.call (closed.fetch operation.head) (target.trans found)).step_eq, passed,
      result, toUInt32_add_one]
  | none =>
    let function := Variable.slotOf (layout.vars g) (.function (crc32 name))
    refine Mirrors.go _ (j.report (.undefinedCall function)) ?_ follows (kept 0) bound.slept
      (by simp [same])
    rw [(Machine.StepsTo.miss (closed.fetch operation.head) (target.trans found)).step_eq,
      toUInt32_add_one]
    rfl

/-- A comparison goes on in its first arm, or jumps to the second. -/
theorem Bound.visit_compare (member : node ∈ layout.nodes) {op : CompareOp} (kind : node.kind = .compare op) :
    Mirrors g after layout registry frame
      (layout.address g node.uuid + (node.constants g).length).toUInt32 m j
      (w.visit g registry frame node k) := by
  have operation := block.operation
  have follows := block.onward
  have locals := bound.locals
  have asked := Layout.demands_subset (g := g) member
  have double : node.type.branches = true := by rw [Node.type, kind]; rfl
  obtain ⟨-, fails⟩ := block.fails double
  simp only [Node.constants, Node.operation, Node.demands, kind, List.length_singleton]
    at operation follows locals asked ⊢
  generalize lhsInput : g.input node.uuid 1 = first at *
  generalize rhsInput : g.input node.uuid 2 = second at *
  have lhs : m.read (first.operand (layout.vars g) 0) = w.read first := by
    refine bound.agrees.read_operand closed (fun v member => asked (by simp [member])) ?_
    rintro value rfl
    simpa [Input.constants] using locals 0 (by simp [Input.constants])
  have rhs : m.read (second.operand (layout.vars g) (first.constants "t_a").length) =
      w.read second := by
    refine bound.agrees.read_operand closed (fun v member => asked (by simp [member])) ?_
    rintro value rfl
    have copied := locals (first.constants "t_a").length (by simp [Input.constants])
    cases first <;> simpa [Input.constants] using copied
  simp only [Walk.visit, kind, lhsInput, rhsInput]
  by_cases holds : op.holds (w.read first) (w.read second) = true
  · simp only [holds, if_true]
    refine Mirrors.go _ j ?_ follows bound.agrees bound.slept same
    rw [(Machine.StepsTo.goOn (closed.fetch operation.head) (by rwa [lhs, rhs])).step_eq,
      toUInt32_add_one, Nat.add_assoc]
  · simp only [holds]
    refine Mirrors.go _ j ?_ fails bound.agrees bound.slept same
    exact (Machine.StepsTo.branch (closed.fetch operation.head) (by rwa [lhs, rhs])).step_eq

/-- A loop goes on in its first arm while it counts, or resets and jumps to the second. -/
theorem Bound.visit_loop (member : node ∈ layout.nodes) {count : UInt32} (kind : node.kind = .loop count) :
    Mirrors g after layout registry frame
      (layout.address g node.uuid + (node.constants g).length).toUInt32 m j
      (w.visit g registry frame node k) := by
  have operation := block.operation
  have follows := block.onward
  have asked := Layout.demands_subset (g := g) member
  have double : node.type.branches = true := by rw [Node.type, kind]; rfl
  obtain ⟨-, fails⟩ := block.fails double
  simp only [Node.constants, Node.operation, Node.demands, kind, List.length_singleton]
    at operation follows asked ⊢
  have declared := asked (List.mem_singleton_self _)
  have counter : m.read (.global (Variable.slotOf (layout.vars g) (.counter node.uuid))) =
      Int64.ofNat (w.counters node.uuid) := by
    change m.globals[_]?.getD 0 = _
    rw [bound.agrees.read_slot closed declared]
    rfl
  have small := bound.agrees.counters node.uuid
  have limit : count.toNat < UInt32.size := count.toNat_lt
  have test : Int64.ofNat (w.counters node.uuid) < Int64.ofNat count.toNat ↔
      w.counters node.uuid < count.toNat := by
    unfold UInt32.size at small limit
    exact Int64.ofNat_lt_iff_lt (by omega) (by omega)
  simp only [Walk.visit, kind]
  by_cases below : w.counters node.uuid < count.toNat
  · simp only [below, if_true]
    refine Mirrors.go _ j ?_ follows
      (bound.agrees.setCounter closed declared (w.counters node.uuid + 1) (by omega))
      bound.slept same
    rw [(Machine.StepsTo.again (closed.fetch operation.head) (by rwa [counter, test])).step_eq,
      toUInt32_add_one, counter, Int64.ofNat_add]
    rfl
  · simp only [below, if_false]
    refine Mirrors.go _ j ?_ fails
      (bound.agrees.setCounter closed declared 0 (by omega)) bound.slept same
    exact (Machine.StepsTo.leave (closed.fetch operation.head) (by rwa [counter, test])).step_eq

end

/-- A pause goes on being waited for, or ends. -/
theorem Asleep.visit {time : Binary32} (asleep : Asleep g layout m node time)
    (agrees : Agrees g layout registry w m) (closed : layout.Closed g after)
    (same : j.effects = k.effects) :
    Mirrors g after layout registry frame (layout.address g node.uuid + 1).toUInt32 m j
      (w.visit g registry frame node k) := by
  obtain ⟨exit, block⟩ := closed.block asleep.member
  have operation := block.operation
  have follows := block.onward
  have slept := agrees.slept
  obtain ⟨before, entered⟩ := Option.isSome_iff_exists.mp asleep.slept
  rw [entered] at slept
  have duration : m.read (.frame 0) = pauseLength time := by
    change m.locals[0]?.getD 0 = _
    rw [asleep.bound]
    rfl
  simp only [Node.constants, Node.operation, asleep.kind, List.length_singleton]
    at operation follows
  simp only [Walk.visit, asleep.kind, ← slept]
  by_cases passed : Elapsed.reaches (Elapsed.add before frame) (pauseLength time) = true
  · simp only [passed, if_true]
    refine Mirrors.go { m with slept := none } j ?_ follows
      { agrees with slept := rfl } rfl same
    rw [(Machine.StepsTo.wake (closed.fetch operation.head) entered (by rwa [duration])).step_eq,
      toUInt32_add_one]
  · simp only [passed]
    refine ⟨0, _, m, j, { m with
      pc := some (layout.address g node.uuid + 1).toUInt32
      slept := some (Elapsed.add before frame) }, j, node, time, .refl .., ?_,
      { agrees with slept := rfl }, rfl, ⟨asleep.member, asleep.kind, rfl, asleep.bound, rfl⟩, same⟩
    exact (Machine.StepsTo.wait (closed.fetch operation.head) entered
      (by rwa [duration])).step_eq

/-- The block of a node does what a visit does. -/
theorem Agrees.visit (agrees : Agrees g layout registry w m) (closed : layout.Closed g after)
    (awake : m.slept = none) (same : j.effects = k.effects) (member : node ∈ layout.nodes) :
    Mirrors g after layout registry frame (layout.address g node.uuid).toUInt32 m j
      (w.visit g registry frame node k) := by
  obtain ⟨exit, block⟩ := closed.block member
  obtain ⟨m', bound, moves⟩ := agrees.moves_constants closed awake member block frame j
  apply Mirrors.behind moves
  cases kind : node.kind with
  | wait time => exact bound.visit_wait closed block same member kind
  | deleteObject object => exact bound.visit_deleteObject closed block same kind
  | sendEvent object eventType value => exact bound.visit_sendEvent closed block same kind
  | function name argument => exact bound.visit_function closed block same member kind
  | compare op => exact bound.visit_compare closed block same member kind
  | loop count => exact bound.visit_loop closed block same member kind
  | start | value =>
    have entered := (closed.node_mem member).2
    simp [Node.type, kind, NodeKind.type, NodeType.inputs] at entered

end

end NodeScript
