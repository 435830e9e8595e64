import NodeScript.Proofs.Compile.Order
import NodeScript.Proofs.Compile.Unit
import NodeScript.Proofs.Graph.Rearranging

/-!
Two graphs that agree are laid out and lowered side by side. Their chains lead the same way through
nodes that are alike; and drafts that differ at most in what is written and reported go on to do so,
since instructions, slots and addresses are made without looking at either.
-/
namespace NodeScript

/-- What a live node leads to is live. -/
theorem Graph.Agrees.next {whole : Prop} {live : Uuid → Prop} {g h : Graph}
    (agrees : g.Agrees whole live h) {node : Node} (inside : live node.uuid)
    (found : g.node? node.uuid = some node) {pin : UInt16} (output : pin ∈ node.type.logicOutputs) :
    ∀ target ∈ g.successor? node.uuid pin, live target := fun _ linked =>
  agrees.leads inside ⟨node, found, List.mem_filterMap.mpr ⟨pin, output, linked⟩⟩

namespace Chain

/-- The chains lead the same way through corresponding nodes. -/
inductive Parallel (corresponds : Node → Node → Prop) : Chain → Chain → Prop
  | stop : Parallel corresponds stop stop
  | jump (uuid : Uuid) : Parallel corresponds (jump uuid) (jump uuid)
  | step {a b : Node} {rest rest' : Chain} (same : corresponds a b)
      (next : Parallel corresponds rest rest') : Parallel corresponds (step a rest) (step b rest')
  | branch {a b : Node} {first second first' second' : Chain} (same : corresponds a b)
      (holds : Parallel corresponds first first') (fails : Parallel corresponds second second') :
      Parallel corresponds (branch a first second) (branch b first' second')

variable {whole : Prop} {live : Uuid → Prop} {g h : Graph} {placed after after' : List Uuid}

/-- Graphs that agree are laid out alike, from any live node on. -/
theorem Lays.parallel (agrees : g.Agrees whole live h) {target : Option Uuid} {chain chain' : Chain}
    (laid : Lays g placed target chain after) (laid' : Lays h placed target chain' after')
    (inside : ∀ uuid ∈ target, live uuid) :
    chain.Parallel (Graph.Alike whole g h) chain' ∧ after = after' := by
  induction laid generalizing chain' after' with
  | stop placed =>
    cases laid'
    exact ⟨.stop, rfl⟩
  | jump seen =>
    cases laid' with
    | jump => exact ⟨.jump _, rfl⟩
    | step fresh | branch fresh => exact absurd seen fresh
  | @step placed after uuid node rest fresh found entered single next ih =>
    obtain ⟨other, found', alike⟩ := agrees.node (inside uuid rfl) found
    obtain ⟨-, rfl⟩ := Graph.node?_eq_some found
    have output : 0 ∈ node.type.logicOutputs := by simp [logicOutputs_entered entered, single]
    cases laid' with
    | jump seen => exact absurd seen fresh
    | step _ foundOther _ _ next' =>
      obtain rfl := Option.some.inj (found'.symm.trans foundOther)
      rw [← alike.successor 0 output] at next'
      obtain ⟨chains, rfl⟩ := ih next' (agrees.next (inside _ rfl) found output)
      exact ⟨.step alike chains, rfl⟩
    | branch _ foundOther _ double' =>
      obtain rfl := Option.some.inj (found'.symm.trans foundOther)
      rw [← alike.type, single] at double'
      cases double'
  | @branch placed middle after uuid node first second fresh found entered double holds fails
      ihFirst ihSecond =>
    obtain ⟨other, found', alike⟩ := agrees.node (inside uuid rfl) found
    obtain ⟨-, rfl⟩ := Graph.node?_eq_some found
    have one : 0 ∈ node.type.logicOutputs := by simp [logicOutputs_entered entered, double]
    have two : 1 ∈ node.type.logicOutputs := by simp [logicOutputs_entered entered, double]
    cases laid' with
    | jump seen => exact absurd seen fresh
    | step _ foundOther _ single' =>
      obtain rfl := Option.some.inj (found'.symm.trans foundOther)
      rw [← alike.type, double] at single'
      cases single'
    | branch _ foundOther _ _ holds' fails' =>
      obtain rfl := Option.some.inj (found'.symm.trans foundOther)
      rw [← alike.successor 0 one] at holds'
      rw [← alike.successor 1 two] at fails'
      obtain ⟨chains, rfl⟩ := ihFirst holds' (agrees.next (inside _ rfl) found one)
      obtain ⟨chains', rfl⟩ := ihSecond fails' (agrees.next (inside _ rfl) found two)
      exact ⟨.branch alike chains chains', rfl⟩

end Chain

/-- The layouts have the same entries, with chains that lead the same way. -/
def Layout.Parallel (corresponds : Node → Node → Prop) (layout layout' : Layout) : Prop :=
  List.Forall₂ (fun entry entry' => entry.1 = entry'.1 ∧ entry.2.Parallel corresponds entry'.2)
    layout layout'

theorem Chain.LaysAll.parallel {whole : Prop} {live : Uuid → Prop} {g h : Graph}
    (formed : g.WellFormed) (agrees : g.Agrees whole live h) {triggers : List Trigger}
    {placed after after' : List Uuid} {layout layout' : Layout}
    (laid : LaysAll g triggers placed layout after)
    (laid' : LaysAll h triggers placed layout' after') :
    Layout.Parallel (Graph.Alike whole g h) layout layout' := by
  obtain ⟨found, type⟩ := formed.node?_start
  obtain ⟨start, -, alike⟩ := agrees.node agrees.begins found
  have output (trigger : Trigger) : trigger.pin ∈ g.start.type.logicOutputs := by
    rw [type]
    cases trigger <;> decide
  have same (trigger : Trigger) :
      g.successor? g.start.uuid trigger.pin = h.successor? h.start.uuid trigger.pin :=
    agrees.start ▸ alike.successor _ (output trigger)
  induction laid generalizing layout' after' with
  | done placed =>
    cases laid'
    exact .nil
  | skip unlinked others ih =>
    rw [same] at unlinked
    cases laid' with
    | skip _ others' => exact ih others'
    | lead linked => cases unlinked.symm.trans linked
  | @lead _ _ _ trigger _ _ _ _ linked laid others ih =>
    have inside := agrees.next agrees.begins found (output trigger)
    rw [linked] at inside
    rw [same] at linked
    cases laid' with
    | skip unlinked => cases unlinked.symm.trans linked
    | lead linked' laid' others' =>
      obtain rfl := Option.some.inj (linked.symm.trans linked')
      obtain ⟨chains, rfl⟩ := laid.parallel agrees laid' inside
      exact .cons ⟨rfl, chains⟩ (ih others')

/-- The assembly without its source lines. -/
def Assembly.mute (a : Assembly) : Assembly := { a with lines := #[], indent := 0 }

theorem Assembly.declareGlobal_mute (a : Assembly) (type name : String) (kind : GlobalKind)
    (initial : Int64) (initialText : Option String) :
    a.mute.declareGlobal type name kind initial initialText =
      ((a.declareGlobal type name kind initial initialText).1.mute,
        (a.declareGlobal type name kind initial initialText).2) := by
  change Assembly.declareGlobal { a with lines := #[], indent := 0 } .. = _
  unfold declareGlobal
  cases a.globals.findIdx? fun d => d.global.name == name <;> rfl

namespace Draft

/-- The draft without what is written, reported and noted. -/
def bare (d : Draft) : Draft := ⟨d.assembly.mute, #[], none⟩

/-- A change that makes the same instructions whatever has been written and reported, and notes no
failure. -/
structure Blind (change : Draft → Draft) : Prop where
  bare : ∀ d, (change d.bare).bare = (change d).bare
  failure : ∀ d, (change d).failure = d.failure

/-- The drafts have the same instructions and the same failure and, if `whole`, are the same. -/
structure Alike (whole : Prop) (d e : Draft) : Prop where
  bare : d.bare = e.bare
  failure : d.failure.map Prod.fst = e.failure.map Prod.fst
  equal : whole → d = e

/-- A change that also gives a value, the same whatever has been written and reported. -/
structure BlindTo {α : Type} (change : Draft → Draft × α) : Prop where
  blind : Blind fun d => (change d).1
  value : ∀ d, (change d.bare).2 = (change d).2

variable {whole : Prop} {d e : Draft} {α β : Type}

theorem Alike.map {change : Draft → Draft} (alike : Alike whole d e) (blind : Blind change) :
    Alike whole (change d) (change e) where
  bare := by rw [← blind.bare d, alike.bare, blind.bare]
  failure := by rw [blind.failure, blind.failure, alike.failure]
  equal all := congrArg change (alike.equal all)

theorem Alike.value {change : Draft → Draft × α} (alike : Alike whole d e)
    (blind : BlindTo change) : (change d).2 = (change e).2 := by
  rw [← blind.value d, alike.bare, blind.value]

theorem Blind.comp {first second : Draft → Draft} (blind : Blind first) (blind' : Blind second) :
    Blind fun d => second (first d) where
  bare d := by rw [← blind'.bare (first d), ← blind.bare d, blind'.bare]
  failure d := by rw [blind'.failure, blind.failure]

theorem Blind.gives {change : Draft → Draft} (blind : Blind change) (value : α) :
    BlindTo fun d => (change d, value) :=
  ⟨blind, fun _ => rfl⟩

theorem BlindTo.pure (value : α) : BlindTo fun d => (d, value) :=
  ⟨⟨fun _ => rfl, fun _ => rfl⟩, fun _ => rfl⟩

/-- What follows may use the value. -/
theorem BlindTo.bind {first : Draft → Draft × α} {next : α → Draft → Draft} (blind : BlindTo first)
    (blind' : ∀ value, Blind (next value)) : Blind fun d => next (first d).2 (first d).1 where
  bare d := by
    rw [blind.value, ← (blind' _).bare (first d).1, ← blind.blind.bare d, (blind' _).bare]
  failure d := by rw [(blind' _).failure, blind.blind.failure]

theorem BlindTo.bindTo {first : Draft → Draft × α} {next : α → Draft → Draft × β}
    (blind : BlindTo first) (blind' : ∀ value, BlindTo (next value)) :
    BlindTo fun d => next (first d).2 (first d).1 where
  blind := blind.bind fun value => (blind' value).blind
  value d := by
    rw [blind.value, ← (blind' _).value (first d).1, ← blind.blind.bare d, (blind' _).value]

theorem Blind.edit {change : Assembly → Assembly}
    (blind : ∀ a : Assembly, (change a.mute).mute = (change a).mute) :
    Blind fun d => d.edit change where
  bare d := by simp only [Draft.bare, assembly_edit, blind]
  failure _ := rfl

/-! What lowering does to a draft -/

theorem blind_declareGlobal (type name : String) (kind : GlobalKind) (initial : Int64)
    (initialText : Option String) :
    BlindTo fun d =>
      ({ d with assembly := (d.assembly.declareGlobal type name kind initial initialText).1 },
        (d.assembly.declareGlobal type name kind initial initialText).2) where
  blind := ⟨fun d => by simp only [Draft.bare, Assembly.declareGlobal_mute]; rfl, fun _ => rfl⟩
  value d := by simp only [Draft.bare, Assembly.declareGlobal_mute]

theorem blind_declareResult (node : Uuid) : BlindTo fun d => d.declareResult node :=
  blind_declareGlobal ..

theorem blind_bindConstant (type name : String) (value : Int64) :
    BlindTo fun d => d.bindConstant type name value :=
  ⟨⟨fun _ => rfl, fun _ => rfl⟩, fun _ => rfl⟩

theorem blind_materialize (operand : Operand) (name : String) :
    BlindTo fun d => d.materialize operand name := by
  cases operand with
  | constant value => exact blind_bindConstant ..
  | _ => exact .pure _

/-- What a Value input reads, given the link into it and the kind of its source. -/
def readFeed (d : Draft) (asset : String) (node : Uuid) (pin : UInt16) :
    Option (Link × Option NodeKind) → Draft × Operand
  | none | some (_, none) => (d, .constant 0)
  | some (_, some (.value number)) => (d, .constant (Int64.ofNat number.toNat))
  | some (link, some kind) =>
    if kind.type = .function ∧ link.fromPin = 1 then
      ((d.declareResult link.fromNode).1, .global (d.declareResult link.fromNode).2)
    else (d.report (.unreadableInput asset pin node kind.type), .constant 0)

theorem resolveInput_eq (d : Draft) (job : Job) (node : Uuid) (pin : UInt16) :
    d.resolveInput job node pin = d.readFeed job.asset node pin (job.graph.feed? node pin) := by
  unfold resolveInput Graph.feed?
  cases job.graph.linkInto? node pin with
  | none => rfl
  | some link =>
    dsimp only [Option.map_some]
    cases job.graph.node? link.fromNode with
    | none => rfl
    | some source =>
      obtain ⟨uuid, kind, position⟩ := source
      cases kind <;> rfl

theorem blind_readFeed (asset : String) (node : Uuid) (pin : UInt16)
    (feed : Option (Link × Option NodeKind)) :
    BlindTo fun d => d.readFeed asset node pin feed := by
  have other (link : Link) (kind : NodeKind) : BlindTo fun d =>
      if kind.type = .function ∧ link.fromPin = 1 then
        ((d.declareResult link.fromNode).1, Operand.global (d.declareResult link.fromNode).2)
      else (d.report (.unreadableInput asset pin node kind.type), .constant 0) := by
    split
    · exact (blind_declareResult link.fromNode).bindTo fun slot => .pure (Operand.global slot)
    · exact ⟨⟨fun _ => rfl, fun _ => rfl⟩, fun _ => rfl⟩
  match feed with
  | none | some (_, none) => exact .pure _
  | some (link, some kind) =>
    have general := other link kind
    cases kind with
    | value number => exact .pure _
    | _ => exact general

theorem blind_resolveInputs (job : Job) (node : Uuid) (pins : List UInt16) :
    BlindTo fun d => d.resolveInputs job node pins := by
  induction pins with
  | nil => exact .pure _
  | cons pin rest ih =>
    have first : BlindTo fun d => d.resolveInput job node pin := by
      simp only [resolveInput_eq]
      exact blind_readFeed ..
    exact first.bindTo fun operand => ih.bindTo fun operands => .pure (operand :: operands)

theorem resolveInputs_congr {g h : Graph} {asset : String} {functions : Option Registry}
    {node : Uuid} {pins : List UInt16} (same : ∀ pin ∈ pins, g.feed? node pin = h.feed? node pin)
    (d : Draft) : d.resolveInputs ⟨g, asset, functions⟩ node pins =
      d.resolveInputs ⟨h, asset, functions⟩ node pins := by
  induction pins generalizing d with
  | nil => rfl
  | cons pin rest ih =>
    obtain ⟨here, others⟩ := List.forall_mem_cons.mp same
    simp only [resolveInputs, resolveInput_eq, here, ih others]

theorem blind_noteName (job : Job) (node : Uuid) (name : String) :
    Blind fun d => d.noteName job node name :=
  ⟨fun d => by simp [Draft.bare]; rfl, fun d => failure_noteName node name⟩

theorem blind_lowerCall (job : Job) (node : Uuid) (name : String) (argument : UInt32) :
    Blind fun d => d.lowerCall job node name argument := by
  have call (function result : Slot) (operand : Operand) : Blind fun d => d.edit fun a =>
      (a.write (.call (a.globalText result) (a.globalText function)
        (a.operandText operand))).emit (.call function operand result) := .edit fun _ => rfl
  exact (blind_noteName job node name).comp
    ((blind_declareGlobal "UserFunc" _ _ 0 _).bind fun function =>
      (blind_declareResult node).bind fun result =>
        (blind_bindConstant "uint32_t" "t_arg" _).bind (call function result))

theorem blind_lowerWait (time : Binary32) : Blind fun d => d.lowerWait time := by
  have sleep (duration : Operand) : Blind fun d => d.edit fun a =>
      (a.write (.sleep (a.operandText duration))).emit (.sleep duration) := .edit fun _ => rfl
  exact (blind_bindConstant "uint64_t" "t_time" _).bind sleep

theorem blind_lowerDelete (object : UInt16) : Blind fun d => d.lowerDelete object := by
  have delete (target : Operand) : Blind fun d => d.edit fun a =>
      (a.write (.removeObject (a.operandText target))).emit (.deleteObject target) :=
    .edit fun _ => rfl
  exact (blind_bindConstant "uint16_t" "t_objId" _).bind delete

theorem blind_lowerSend (object eventType : UInt16) (value : UInt32) :
    Blind fun d => d.lowerSend object eventType value := by
  have send (target type payload : Operand) : Blind fun d => d.edit fun a =>
      (a.write (.sendEvent (a.operandText target) (a.operandText type)
        (a.operandText payload))).emit (.sendEvent target type payload) := .edit fun _ => rfl
  exact (blind_bindConstant "uint16_t" "t_objId" _).bind fun target =>
    (blind_bindConstant "uint16_t" "t_eventType" _).bind fun type =>
      (blind_bindConstant "uint32_t" "t_eventVal" _).bind (send target type)

theorem blind_lowerStep (job : Job) (node : Node) : Blind fun d => d.lowerStep job node := by
  unfold lowerStep
  cases node.kind with
  | wait time => exact blind_lowerWait time
  | deleteObject object => exact blind_lowerDelete object
  | sendEvent object eventType value => exact blind_lowerSend object eventType value
  | function name argument => exact blind_lowerCall job node.uuid name argument
  | _ => exact ⟨fun _ => rfl, fun _ => rfl⟩

theorem blind_lowerCompare (op : CompareOp) (inputs : List Operand) :
    Blind fun d => d.lowerCompare op inputs := by
  have test (lhs rhs : Operand) : Blind fun d => d.edit fun a =>
      (a.emit (.jumpUnless op lhs rhs 0)).openGroup
        (.ifCompare (a.operandText lhs) op (a.operandText rhs)) := .edit fun _ => rfl
  exact (blind_materialize _ "t_a").bind fun lhs => (blind_materialize _ "t_b").bind (test lhs)

theorem blind_lowerLoop (node : Uuid) (count : UInt32) :
    BlindTo fun d => d.lowerLoop node count where
  blind := ⟨fun d => by simp only [lowerLoop, Draft.bare, Assembly.declareGlobal_mute]; rfl,
    fun _ => rfl⟩
  value d := by
    simp only [lowerLoop, Draft.bare, Assembly.declareGlobal_mute]
    rfl

theorem blind_lowerHead (node : Node) (inputs : List Operand) :
    BlindTo fun d => d.lowerHead node inputs := by
  unfold lowerHead
  cases node.kind with
  | compare op => exact (blind_lowerCompare op inputs).gives none
  | loop count => exact (blind_lowerLoop node.uuid count).bindTo fun prelude => .pure (some prelude)
  | _ => exact .pure _

theorem blind_goto (uuid : Uuid) (a : Assembly) : (a.mute.goto uuid).mute = (a.goto uuid).mute := by
  have found : a.mute.addressOf? uuid = a.addressOf? uuid := rfl
  unfold Assembly.goto
  rw [found]
  cases a.addressOf? uuid <;> rfl

theorem blind_turnArms (head : Addr) (prelude : Option Statement) (a : Assembly) :
    (a.mute.turnArms head prelude).mute = (a.turnArms head prelude).mute := by
  cases prelude <;> rfl

/-! Two drafts side by side -/

section Nodes

variable {g h : Graph} {a b : Node} (asset : String) (functions : Option Registry)

/-- A visible label is all that the number of links into a node makes a difference to. -/
theorem bare_openNode (d : Draft) (job : Job) (node : Node) :
    (d.openNode job node).bare =
      ⟨{ d.bare.assembly with
          labels := (node.uuid, d.bare.assembly.here) :: d.bare.assembly.labels
          locals := #[] }, #[], none⟩ := by
  unfold openNode
  cases decide (1 < job.graph.logicInDegree node.uuid) <;> rfl

theorem Alike.openNode (alike : Alike whole d e) (nodes : g.Alike whole h a b) :
    Alike whole (d.openNode ⟨g, asset, functions⟩ a) (e.openNode ⟨h, asset, functions⟩ b) where
  bare := by rw [bare_openNode, bare_openNode, alike.bare, nodes.uuid]
  failure := alike.failure
  equal all := by
    have joins := nodes.joins all
    rw [nodes.uuid] at joins
    simp only [Draft.openNode, alike.equal all, nodes.uuid, nodes.kind, joins]

/-- The first failure is kept. -/
theorem failure_checkSlots (d : Draft) (job : Job) (node : Uuid) :
    (d.checkSlots job node).failure.map Prod.fst = (d.failure.map Prod.fst <|>
      if slotLimit < d.bare.assembly.globals.size then
        some (.tooManySlots job.asset node .global slotLimit)
      else if slotLimit < d.bare.assembly.locals.size then
        some (.tooManySlots job.asset node .frame slotLimit)
      else none) := by
  have globals : d.bare.assembly.globals = d.assembly.globals := rfl
  have locals : d.bare.assembly.locals = d.assembly.locals := rfl
  rw [globals, locals]
  unfold checkSlots
  split
  · cases d.failure <;> rfl
  · split <;> cases noted : d.failure <;> simp

theorem Alike.checkSlots (alike : Alike whole d e) (nodes : g.Alike whole h a b) :
    Alike whole (d.checkSlots ⟨g, asset, functions⟩ a.uuid)
      (e.checkSlots ⟨h, asset, functions⟩ b.uuid) where
  bare := by simp only [Draft.bare, assembly_checkSlots]; exact alike.bare
  failure := by
    rw [failure_checkSlots, failure_checkSlots, alike.bare, alike.failure, nodes.uuid]
  equal all := by rw [alike.equal all, nodes.uuid]; rfl

theorem Alike.noteLinks (alike : Alike whole d e) (nodes : g.Alike whole h a b) (pin : UInt16) :
    Alike whole (d.noteLinks ⟨g, asset, functions⟩ a.uuid pin)
      (e.noteLinks ⟨h, asset, functions⟩ b.uuid pin) where
  bare := by simp only [Draft.bare, assembly_noteLinks]; exact alike.bare
  failure := by simp only [failure_noteLinks]; exact alike.failure
  equal all := by
    have fans := nodes.fans all pin
    rw [nodes.uuid] at fans
    simp only [Draft.noteLinks, alike.equal all, nodes.uuid, fans]

theorem Alike.resolveInputs (alike : Alike whole d e) (nodes : g.Alike whole h a b) :
    Alike whole (d.resolveInputs ⟨g, asset, functions⟩ a.uuid a.type.valueInputs).1
        (e.resolveInputs ⟨h, asset, functions⟩ b.uuid b.type.valueInputs).1 ∧
      (d.resolveInputs ⟨g, asset, functions⟩ a.uuid a.type.valueInputs).2 =
        (e.resolveInputs ⟨h, asset, functions⟩ b.uuid b.type.valueInputs).2 := by
  have blind := blind_resolveInputs ⟨g, asset, functions⟩ a.uuid a.type.valueInputs
  rw [← nodes.uuid, ← nodes.type, ← resolveInputs_congr nodes.feed]
  exact ⟨alike.map blind.blind, alike.value blind⟩

theorem Alike.lowerStep (alike : Alike whole d e) (nodes : g.Alike whole h a b) :
    Alike whole (d.lowerStep ⟨g, asset, functions⟩ a) (e.lowerStep ⟨h, asset, functions⟩ b) := by
  have same : e.lowerStep ⟨g, asset, functions⟩ a = e.lowerStep ⟨h, asset, functions⟩ b := by
    rw [Draft.lowerStep, Draft.lowerStep, nodes.kind, nodes.uuid]
    cases b.kind <;> rfl
  exact same ▸ alike.map (blind_lowerStep ⟨g, asset, functions⟩ a)

theorem Alike.stepped (alike : Alike whole d e) (nodes : g.Alike whole h a b) :
    Alike whole (d.stepped ⟨g, asset, functions⟩ a) (e.stepped ⟨h, asset, functions⟩ b) := by
  have close : Blind fun d => d.edit Assembly.endBlock := .edit fun _ => rfl
  have opened := (alike.resolveInputs asset functions nodes).1.openNode asset functions nodes
  have lowered := (opened.lowerStep asset functions nodes).checkSlots asset functions nodes
  exact (lowered.map close).noteLinks asset functions nodes 0

theorem Alike.headed (alike : Alike whole d e) (nodes : g.Alike whole h a b) :
    Alike whole (d.headed ⟨g, asset, functions⟩ a).1 (e.headed ⟨h, asset, functions⟩ b).1 ∧
      (d.headed ⟨g, asset, functions⟩ a).2 = (e.headed ⟨h, asset, functions⟩ b).2 := by
  obtain ⟨read, inputs⟩ := alike.resolveInputs asset functions nodes
  have opened := read.openNode asset functions nodes
  have same (f : Draft) (inputs : List Operand) : f.lowerHead b inputs = f.lowerHead a inputs := by
    rw [lowerHead, lowerHead, nodes.kind, nodes.uuid]
  have blind := blind_lowerHead a
    (d.resolveInputs ⟨g, asset, functions⟩ a.uuid a.type.valueInputs).2
  simp only [Draft.headed, ← inputs, same]
  exact ⟨opened.map blind.blind, opened.value blind⟩

theorem Alike.entered (alike : Alike whole d e) (nodes : g.Alike whole h a b) :
    Alike whole (d.entered ⟨g, asset, functions⟩ a) (e.entered ⟨h, asset, functions⟩ b) :=
  ((alike.headed asset functions nodes).1.checkSlots asset functions nodes).noteLinks asset
    functions nodes 0

theorem Alike.turned {held held' : Draft} (alike : Alike whole d e)
    (between : Alike whole held held') (nodes : g.Alike whole h a b) :
    Alike whole (d.turned held ⟨g, asset, functions⟩ a)
      (e.turned held' ⟨h, asset, functions⟩ b) := by
  obtain ⟨heads, prelude⟩ := alike.headed asset functions nodes
  have here : (d.headed ⟨g, asset, functions⟩ a).1.assembly.here =
      (e.headed ⟨h, asset, functions⟩ b).1.assembly.here :=
    congrArg (·.assembly.here) heads.bare
  rw [Draft.turned, Draft.turned, here, prelude]
  exact (between.map (.edit (blind_turnArms _ _))).noteLinks asset functions nodes 1

theorem Alike.lowerChain {chain chain' : Chain} (alike : Alike whole d e)
    (chains : chain.Parallel (g.Alike whole h) chain') :
    Alike whole (lowerChain ⟨g, asset, functions⟩ chain d)
      (lowerChain ⟨h, asset, functions⟩ chain' e) := by
  induction chains generalizing d e with
  | stop => exact alike.map (.edit fun _ => rfl)
  | jump uuid => exact alike.map (.edit (blind_goto uuid))
  | step nodes _ ih =>
    rw [lowerChain_step, lowerChain_step]
    exact ih (alike.stepped asset functions nodes)
  | branch nodes _ _ ihFirst ihSecond =>
    have between := ihFirst (alike.entered asset functions nodes)
    rw [lowerChain_branch, lowerChain_branch]
    exact (ihSecond (alike.turned asset functions between nodes)).map (.edit fun _ => rfl)

theorem Alike.lowerEntries {layout layout' : Layout} (alike : Alike whole d e)
    (starts : g.Alike whole h g.start h.start)
    (layouts : layout.Parallel (g.Alike whole h) layout') (entries : Entries) :
    Alike whole (lowerEntries ⟨g, asset, functions⟩ layout d entries).1
        (lowerEntries ⟨h, asset, functions⟩ layout' e entries).1 ∧
      (lowerEntries ⟨g, asset, functions⟩ layout d entries).2 =
        (lowerEntries ⟨h, asset, functions⟩ layout' e entries).2 := by
  induction layouts generalizing d e entries with
  | nil => exact ⟨alike, rfl⟩
  | @cons entry entry' rest rest' first _ ih =>
    obtain ⟨trigger, chain⟩ := entry
    obtain ⟨trigger', chain'⟩ := entry'
    obtain ⟨rfl, chains⟩ := first
    have label : Blind fun d => (d.report (.lowering trigger asset)).edit fun a =>
        a.writeLabel trigger.label := ⟨fun _ => rfl, fun _ => rfl⟩
    have opened := (alike.noteLinks asset functions starts trigger.pin).map label
    have here : d.assembly.here = e.assembly.here := congrArg (·.assembly.here) alike.bare
    rw [lowerEntries_cons, lowerEntries_cons, here]
    exact ih (opened.lowerChain asset functions chains) _

end Nodes

end Draft

end NodeScript
