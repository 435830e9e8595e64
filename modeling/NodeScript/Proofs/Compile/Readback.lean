import NodeScript.Proofs.Compile.Joins
import NodeScript.Proofs.Compile.Legible

/-!
The source of a unit, read back, is its program. By induction on how a chain is laid out its lines
mean its code, so the statements of a unit laid out in order are its instructions, and its labels
stand where its nodes and entries do. That each jump finds its label depends on links joining pins
of one kind.
-/
namespace NodeScript

open Source (Means Context Item Body Groups)

variable {g : Graph} {vars : List Variable} {address : Uuid → Nat} {context : Context}

theorem labelName_injective {a b : Uuid} (same : Assembly.labelName a = Assembly.labelName b) :
    a = b := by
  have letters := congrArg String.toList same
  simp only [Assembly.labelName, String.toList_append] at letters
  exact hex64_injective (String.toList_inj.mp (List.append_cancel_left letters))

theorem Trigger.label_injective {a b : Trigger} (same : a.label = b.label) : a = b := by
  cases a <;> cases b <;> first | rfl | exact absurd same (by decide)

/-- No node has the label of an entry. -/
theorem label_ne_labelName (trigger : Trigger) (uuid : Uuid) :
    trigger.label ≠ Assembly.labelName uuid := by
  intro same
  have letters := congrArg (fun name => name.toList.head?) same
  cases trigger <;> simp [Trigger.label, Assembly.labelName, String.toList_append] at letters

namespace Node

/-- The items of a node's block up to its statement. -/
def opened (g : Graph) (node : Node) : List Item :=
  (if 1 < g.logicInDegree node.uuid then [.label (Assembly.labelName node.uuid)] else []) ++
    .statement .openBlock ::
      (node.constants g).map fun c => .statement (.constant c.type c.name c.value)

/-- The label of a node that several links lead to. -/
def marks (g : Graph) (node : Node) (base : Nat) : List (String × Nat) :=
  if 1 < g.logicInDegree node.uuid then [(Assembly.labelName node.uuid, base)] else []

theorem items_lines (g : Graph) (node : Node) (spell : Variable → String) (indent : Nat) :
    (node.lines g spell indent).flatMap Item.ofLine =
      node.opened g ++ (node.statements g spell (indent + 1)).flatMap Item.ofLine := by
  have constants : ((node.constants g).map
      fun c => Line.statement (indent + 1) (.constant c.type c.name c.value)).flatMap Item.ofLine =
      (node.constants g).map fun c => .statement (.constant c.type c.name c.value) := by
    induction node.constants g with
    | nil => rfl
    | cons constant rest ih => simp [Item.ofLine, ih]
  rw [lines, List.flatMap_append, List.flatMap_append, constants, opened, opening,
    List.flatMap_append]
  split <;> simp [Item.ofLine]

theorem constants_mean (context : Context) (scope : List String) (constants : List Constant) :
    ∃ body, Means context scope
      (constants.map fun c => .statement (.constant c.type c.name c.value)) body
      (constants.map (·.name)) constants.length (fun _ => [])
      (fun _ => bindings scope.length constants) := by
  induction constants generalizing scope with
  | nil => exact ⟨id, .nothing context scope⟩
  | cons constant rest ih =>
    obtain ⟨body, others⟩ := ih (scope ++ [constant.name])
    have first : Means context scope
        [.statement (.constant constant.type constant.name constant.value)] _ [constant.name] 1
        (fun _ => []) (fun _ => [.setLocal scope.length.toUInt16 constant.value]) := .statement rfl
    refine ⟨_, (first.append others).congr rfl rfl ?_ (fun _ => rfl) fun _ => ?_⟩
    · simp [Nat.add_comm]
    · simp [bindings]

/-- The block of a node says what is in it behind its constants. -/
theorem block_means (g : Graph) (node : Node) {items : List Item} {inner : Body → Body} {size : Nat}
    {marks : Nat → List (String × Nat)} {code : Nat → List Instruction}
    (said : Means context ((node.constants g).map (·.name)) items inner [] size marks code)
    (scope : List String) :
    ∃ body, Means context scope (node.opened g ++ (items ++ [.statement .closeBlock])) body []
      ((node.constants g).length + size)
      (fun base => node.marks g base ++ marks (base + (node.constants g).length))
      (fun base => bindings 0 (node.constants g) ++ code (base + (node.constants g).length)) := by
  obtain ⟨bound, constants⟩ := constants_mean context [] (node.constants g)
  have block := (constants.append said).block scope
  by_cases visible : 1 < g.logicInDegree node.uuid
  · have label := Means.label context scope (Assembly.labelName node.uuid)
    rw [← List.append_nil scope] at block
    refine ⟨_, (label.append block).congr ?_ rfl (Nat.zero_add _) (fun base => ?_) fun base => ?_⟩
    · simp [opened, visible]
    · simp [Node.marks, visible]
    · simp
  · refine ⟨_, block.congr ?_ rfl rfl (fun base => ?_) fun base => rfl⟩
    · simp [opened, visible]
    · simp [Node.marks, visible]

end Node

namespace Chain

/-- The labels of a chain. -/
def marks (g : Graph) (base : Nat) (chain : Chain) : List (String × Nat) :=
  ((chain.places g base).filter fun place => 1 < g.logicInDegree place.1).map fun place =>
    (Assembly.labelName place.1, place.2)

theorem marks_step (base : Nat) (node : Node) (rest : Chain) :
    (step node rest).marks g base = node.marks g base ++ rest.marks g (base + node.size g) := by
  rw [marks, places, Node.marks, List.filter_cons]
  by_cases visible : 1 < g.logicInDegree node.uuid <;> simp [visible, marks]

theorem marks_branch (base : Nat) (node : Node) (first second : Chain) :
    (branch node first second).marks g base = node.marks g base ++
      (first.marks g (base + node.size g) ++
        second.marks g (base + node.size g + first.size g)) := by
  rw [marks, places, Node.marks, List.filter_cons, List.filter_append]
  by_cases visible : 1 < g.logicInDegree node.uuid <;> simp [visible, marks]

/-- A chain is said by its lines, where its jumps find their labels. -/
theorem Lays.means {placed after : List Uuid} {target : Option Uuid} {chain : Chain}
    (laid : Lays g placed target chain after)
    (declared : context.globals = vars.map fun v => v.declaration.global)
    (asked : chain.demands g ⊆ vars)
    (resolved : ∀ uuid ∈ chain.jumps,
      context.address? (Assembly.labelName uuid) = some (address uuid).toUInt32)
    (scope : List String) (indent : Nat) :
    ∃ body, Means context scope ((chain.lines g indent).flatMap Item.ofLine) body [] (chain.size g)
      (fun base => chain.marks g base) (fun base => chain.code g vars address base) := by
  induction laid generalizing scope indent with
  | stop placed => exact ⟨_, Means.statement rfl⟩
  | jump seen =>
    have found := resolved _ (List.mem_singleton_self _)
    refine ⟨_, Means.statement ?_⟩
    rw [Context.instruction?, found]
    rfl
  | @step placed after uuid node rest unplaced found entered single next ih =>
    obtain ⟨own, later⟩ := List.append_subset.mp asked
    obtain ⟨action, operation, said, only, instruction, unbound⟩ :=
      node.action_means g entered single declared own
    have statement := Means.statement instruction
    rw [unbound] at statement
    obtain ⟨body, block⟩ := node.block_means g statement scope
    obtain ⟨others, behind⟩ := ih later resolved scope indent
    rw [← List.append_nil scope] at behind
    have size := Node.size_of_operation g only
    refine ⟨_, (block.append behind).congr ?_ rfl ?_ (fun base => ?_) fun base => ?_⟩
    · rw [lines, List.flatMap_append, Node.items_lines, said]
      simp [Item.ofLine]
    · rw [Chain.size, size]
    · rw [marks_step, size, List.append_nil]
    · rw [code, Node.code, only, size]
  | @branch placed middle after uuid node first second unplaced found entered double holds fails
      ihFirst ihSecond =>
    obtain ⟨own, later⟩ := List.append_subset.mp asked
    obtain ⟨askedFirst, askedSecond⟩ := List.append_subset.mp later
    obtain ⟨resolvedFirst, resolvedSecond⟩ := List.forall_mem_append.mp resolved
    obtain ⟨test, jump, said, prelude, only, instruction⟩ :=
      node.test_means g double declared own
    obtain ⟨firstBody, firstArm⟩ := ihFirst askedFirst resolvedFirst [] (indent + 2)
    obtain ⟨secondBody, secondArm⟩ := ihSecond askedSecond resolvedSecond [] (indent + 2)
    obtain ⟨body, block⟩ := node.block_means g (Means.branch instruction firstArm secondArm) scope
    have size := Node.size_of_operation g (only 0)
    refine ⟨_, block.congr ?_ rfl ?_ (fun base => ?_) fun base => ?_⟩
    · rw [lines, List.flatMap_append, List.flatMap_append, Node.items_lines, said]
      simp only [List.flatMap_cons, List.flatMap_append, prelude]
      simp [Item.ofLine]
    · rw [Chain.size, size]
      omega
    · rw [marks_branch, size]
      simp only [Nat.add_assoc]
    · rw [code, Node.code, only, size]
      simp only [Nat.add_assoc]
      simp

theorem mem_marks {chain : Chain} {base : Nat} {name : String}
    (member : name ∈ (chain.marks g base).map Prod.fst) :
    ∃ node ∈ chain.nodes, 1 < g.logicInDegree node.uuid ∧
      name = Assembly.labelName node.uuid := by
  simp only [marks, List.map_map, List.mem_map, List.mem_filter] at member
  obtain ⟨place, ⟨placed, visible⟩, rfl⟩ := member
  have key : place.1 ∈ (chain.places g base).map Prod.fst := List.mem_map_of_mem placed
  rw [keys_places] at key
  obtain ⟨node, inside, same⟩ := List.mem_map.mp key
  rw [← same] at visible
  exact ⟨node, inside, by simpa using visible, congrArg Assembly.labelName same.symm⟩

theorem nodup_marks {chain : Chain} (distinct : (chain.nodes.map (·.uuid)).Nodup) (base : Nat) :
    ((chain.marks g base).map Prod.fst).Nodup := by
  have names : (chain.marks g base).map Prod.fst =
      (((chain.places g base).filter fun place => 1 < g.logicInDegree place.1).map Prod.fst).map
        Assembly.labelName := by
    simp [marks]
  rw [← keys_places g chain base] at distinct
  rw [names]
  exact (distinct.sublist (List.filter_sublist.map _)).map fun _ _ => labelName_injective

theorem Lays.jumps_subset {placed after : List Uuid} {target : Option Uuid} {chain : Chain}
    (laid : Lays g placed target chain after) : chain.jumps ⊆ after := by
  induction laid with
  | stop => exact List.nil_subset _
  | jump seen => exact List.cons_subset.mpr ⟨seen, List.nil_subset _⟩
  | step _ _ _ _ _ ih => exact ih
  | branch _ _ _ _ _ fails ihFirst ihSecond =>
    exact List.append_subset.mpr ⟨List.Subset.trans ihFirst fails.subset, ihSecond⟩

theorem LaysAll.jumps_subset {triggers : List Trigger} {placed after : List Uuid} {layout : Layout}
    (laid : LaysAll g triggers placed layout after) :
    ∀ entry ∈ layout, entry.2.jumps ⊆ after := by
  induction laid with
  | done => simp
  | skip _ _ ih => exact ih
  | lead _ first others ih =>
    exact List.forall_mem_cons.mpr ⟨List.Subset.trans first.jumps_subset others.subset, ih⟩

theorem LaysAll.triggers_sublist {triggers : List Trigger} {placed after : List Uuid}
    {layout : Layout} (laid : LaysAll g triggers placed layout after) :
    (layout.map Prod.fst).Sublist triggers := by
  induction laid with
  | done => exact .slnil
  | skip _ _ ih => exact ih.cons _
  | lead _ _ _ ih => exact ih.cons_cons _

end Chain

namespace Layout

variable {layout : Layout}

/-- The labels of a unit. -/
def marks (g : Graph) : (base : Nat) → Layout → List (String × Nat)
  | _, [] => []
  | base, (trigger, chain) :: rest =>
    (trigger.label, base) :: (chain.marks g base ++ marks g (base + chain.size g) rest)

/-- The entries of a unit are said by its lines. -/
theorem means {triggers : List Trigger} {placed after : List Uuid}
    (laid : Chain.LaysAll g triggers placed layout after)
    (declared : context.globals = vars.map fun v => v.declaration.global)
    (asked : layout.demands g ⊆ vars)
    (resolved : ∀ entry ∈ layout, ∀ uuid ∈ entry.2.jumps,
      context.address? (Assembly.labelName uuid) = some (address uuid).toUInt32) :
    ∃ body, Means context [] ((layout.lines g).flatMap Item.ofLine) body [] (layout.size g)
      (fun base => layout.marks g base) (fun base => layout.code g vars address base) := by
  induction laid with
  | done => exact ⟨id, .nothing context []⟩
  | skip _ _ ih => exact ih asked resolved
  | @lead placed middle after trigger rest target chain layout linked laid others ih =>
    obtain ⟨own, later⟩ := List.append_subset.mp asked
    obtain ⟨here, there⟩ := List.forall_mem_cons.mp resolved
    obtain ⟨body, first⟩ := laid.means declared own here [] 1
    obtain ⟨otherBody, behind⟩ := ih later there
    have label := Means.label context [] trigger.label
    refine ⟨_, (label.append (first.append behind)).congr ?_ rfl ?_ (fun _ => rfl) fun _ => rfl⟩
    · simp [lines, Item.ofLine]
    · simp [size]

/-- A label is that of an entry or that of a placed node. -/
theorem mem_marks {base : Nat} {name : String}
    (member : name ∈ (layout.marks g base).map Prod.fst) :
    (∃ entry ∈ layout, name = entry.1.label) ∨
      ∃ node ∈ layout.nodes, 1 < g.logicInDegree node.uuid ∧
        name = Assembly.labelName node.uuid := by
  induction layout generalizing base with
  | nil => simp [marks] at member
  | cons entry rest ih =>
    obtain ⟨trigger, chain⟩ := entry
    simp only [marks, List.map_cons, List.map_append, List.mem_cons, List.mem_append] at member
    rcases member with rfl | member | member
    · exact .inl ⟨_, List.mem_cons_self .., rfl⟩
    · obtain ⟨node, inside, visible, rfl⟩ := Chain.mem_marks member
      exact .inr ⟨node, by simp [nodes, inside], visible, rfl⟩
    · rcases ih member with ⟨entry, inside, rfl⟩ | ⟨node, inside, visible, rfl⟩
      · exact .inl ⟨entry, List.mem_cons_of_mem _ inside, rfl⟩
      · exact .inr ⟨node, List.mem_append_right _ inside, visible, rfl⟩

/-- The labels of a unit are distinct. -/
theorem nodup_marks (triggers : (layout.map Prod.fst).Nodup)
    (distinct : (layout.nodes.map (·.uuid)).Nodup) (base : Nat) :
    ((layout.marks g base).map Prod.fst).Nodup := by
  induction layout generalizing base with
  | nil => exact List.nodup_nil
  | cons entry rest ih =>
    obtain ⟨trigger, chain⟩ := entry
    obtain ⟨new, triggers⟩ := List.nodup_cons.mp triggers
    simp only [nodes, List.flatMap_cons, List.map_append] at distinct
    obtain ⟨own, later, apart⟩ := List.nodup_append.mp distinct
    simp only [marks, List.map_cons, List.map_append]
    refine List.nodup_cons.mpr ⟨?_, List.nodup_append.mpr
      ⟨Chain.nodup_marks own base, ih triggers later _, ?_⟩⟩
    · intro member
      rcases List.mem_append.mp member with member | member
      · obtain ⟨node, -, -, same⟩ := Chain.mem_marks member
        exact label_ne_labelName _ _ same
      · rcases mem_marks member with ⟨other, inside, same⟩ | ⟨node, -, -, same⟩
        · exact new (List.mem_map.mpr ⟨other, inside, Trigger.label_injective same.symm⟩)
        · exact label_ne_labelName _ _ same
    · rintro name member _ member' rfl
      obtain ⟨node, inside, -, rfl⟩ := Chain.mem_marks member
      rcases mem_marks member' with ⟨other, -, same⟩ | ⟨other, inside', -, same⟩
      · exact label_ne_labelName _ _ same.symm
      · exact apart _ (List.mem_map_of_mem inside) _ (List.mem_map_of_mem inside')
          (labelName_injective same)

theorem nodup_labels {after : List Uuid} (laid : Chain.LaysAll g Trigger.all [] layout after) :
    ((layout.marks g 0).map Prod.fst).Nodup := by
  refine nodup_marks (laid.triggers_sublist.nodup (by decide)) ?_ 0
  rw [nodes, ← keys_places g layout 0]
  exact nodup_keys laid

/-- A node that several links lead to has a label where it stands. -/
theorem mark_mem {base : Nat} {place : Uuid × Nat} (placed : place ∈ layout.places g base)
    (visible : 1 < g.logicInDegree place.1) :
    (Assembly.labelName place.1, place.2) ∈ layout.marks g base := by
  induction layout generalizing base with
  | nil => simp [places] at placed
  | cons entry rest ih =>
    obtain ⟨trigger, chain⟩ := entry
    rcases List.mem_append.mp placed with placed | placed
    · refine List.mem_cons_of_mem _ (List.mem_append_left _ ?_)
      exact List.mem_map.mpr ⟨place, List.mem_filter.mpr ⟨placed, by simpa using visible⟩, rfl⟩
    · exact List.mem_cons_of_mem _ (List.mem_append_right _ (ih placed))

/-- The labels of entries tell where the entries are. -/
theorem entries_marks {base : Nat} (distinct : ((layout.marks g base).map Prod.fst).Nodup)
    (found : Entries) (trigger : Trigger) :
    (layout.entries g base found).get trigger =
      ((Context.address? ⟨[], layout.marks g base⟩ trigger.label).or (found.get trigger)) := by
  induction layout generalizing base found with
  | nil => simp [entries, marks, Context.address?]
  | cons entry rest ih =>
    obtain ⟨other, chain⟩ := entry
    simp only [marks, List.map_cons, List.map_append] at distinct
    obtain ⟨new, distinct⟩ := List.nodup_cons.mp distinct
    obtain ⟨-, later, -⟩ := List.nodup_append.mp distinct
    rw [entries, ih later, Entries.get_set]
    by_cases same : other = trigger
    · subst same
      have later : Context.address? ⟨[], marks g (base + chain.size g) rest⟩ other.label = none :=
        Context.address?_eq_none _ fun member => new (List.mem_append_right _ member)
      rw [later, if_pos rfl]
      simp [marks, Context.address?]
    · have differs : (other.label == trigger.label) = false := by
        simpa using fun equal => same (Trigger.label_injective equal)
      have nodes : (chain.marks g base).find? (fun label => label.1 == trigger.label) = none := by
        refine List.find?_eq_none.mpr fun label member equal => ?_
        obtain ⟨node, -, -, name⟩ := Chain.mem_marks (List.mem_map_of_mem member)
        exact label_ne_labelName trigger node.uuid ((beq_iff_eq.mp equal).symm.trans name)
      simp [same, marks, Context.address?, differs, List.find?_append, nodes]

namespace Closed

variable {after : List Uuid}

/-- A unit is said by its lines. -/
theorem reads (closed : layout.Closed g after) (formed : g.WellFormed) (typed : g.Typed) :
    Source.program? ((layout.vars g).map fun v => v.declaration.global)
      ((layout.lines g).flatMap Line.render) =
      some ((layout.program g).code, (layout.program g).entries) := by
  have distinct := nodup_labels closed.laid
  let context : Context := ⟨(layout.vars g).map fun v => v.declaration.global, layout.marks g 0⟩
  have resolved : ∀ entry ∈ layout, ∀ uuid ∈ entry.2.jumps,
      context.address? (Assembly.labelName uuid) = some (layout.address g uuid).toUInt32 := by
    intro entry member uuid jumped
    have visible := closed.laid.one_lt_logicInDegree formed typed member jumped
    obtain ⟨node, inside, rfl⟩ := closed.node_of_mem (closed.laid.jumps_subset entry member jumped)
    have key : node.uuid ∈ (layout.places g 0).map Prod.fst := by
      rw [keys_places]
      exact List.mem_map_of_mem inside
    obtain ⟨place, placed, same⟩ := List.mem_map.mp key
    rw [← same] at visible ⊢
    have found := find?_of_nodup_keys distinct (mark_mem placed visible)
    rw [Context.address?, found, closed.agree place placed]
    rfl
  have declared : context.globals = (layout.vars g).map fun v => v.declaration.global := rfl
  obtain ⟨body, meant⟩ := means closed.laid declared (fun v asked => Variable.mem_declareAll asked)
    resolved
  have grouped := meant.grouped [] (.outermost .nothing) rfl
  have labelled := meant.labelled 0 .nothing
  have coded := meant.coded 0 .nothing
  rw [List.append_nil] at grouped
  simp only [Body.labels, List.append_nil] at labelled
  simp only [Context.code?, Option.map_some, List.append_nil] at coded
  have entered : Source.entries (layout.marks g 0) = (layout.program g).entries := by
    have told (trigger : Trigger) : (Source.entries (layout.marks g 0)).get trigger =
        (layout.program g).entries.get trigger := by
      rw [program, entries_marks distinct]
      cases trigger <;> exact Option.or_none.symm
    exact Entries.ext (told .init) (told .event) (told .collision)
  have read := Source.read?_render (Layout.lines_legible g layout)
  rw [Source.program?, read, Option.bind_eq_bind, Option.bind_some, Source.body?, grouped]
  change (if ((Body.labels 0 (body .nothing)).map Prod.fst).Nodup then _ else none) = _
  rw [labelled, if_pos distinct]
  change (context.code? 0 [] (body .nothing) >>= _) = _
  rw [coded, ← entered]
  rfl

end Closed

end Layout

/-- Generated source and program are the same code. For every accepted graph whose links join pins
of one kind and whose unit fits, the body lines of the source, read back as statements and laid out
in order, are the code of the program, and their labels are its entries. -/
theorem source_reads_back {nodes : List Node} {links : List Link} {g : Graph}
    (accepted : Graph.ofParts nodes links = .ok g) (typed : g.Typed) (asset : String)
    (functions : Option Registry) (fits : Job.Fits ⟨g, asset, functions⟩) (uuid : Uuid) :
    ∃ layout script, Chain.ofGraph g asset = .ok layout ∧
      (Job.compile ⟨g, asset, functions⟩ uuid).value = .ok script ∧
      script.source = (Job.draft ⟨g, asset, functions⟩ layout).1.assembly.source uuid asset
        script.program.entries ∧
      Source.program? script.program.globals.toList
        (Job.draft ⟨g, asset, functions⟩ layout).1.assembly.bodyLines =
          some (script.program.code, script.program.entries) := by
  obtain ⟨rfl, formed⟩ := (Graph.ofParts_eq_ok_iff nodes links g).mp accepted
  obtain ⟨layout, after, laid, closed⟩ := fits.closed formed
  obtain ⟨script, compiled, program, -, source⟩ := Job.compile_closed laid closed uuid
  refine ⟨layout, script, laid, compiled, program ▸ source, ?_⟩
  have lines := (Layout.Closed.lowered closed).1.lines
  rw [Assembly.bodyLines, lines, program]
  exact closed.reads formed typed

/-- The sample graph, whose counter is tested again behind each round. -/
theorem source_reads_back_sample :
    ∃ layout script, Chain.ofGraph Graph.sample "sample" = .ok layout ∧
      (Job.compile ⟨Graph.sample, "sample", none⟩ 9).value = .ok script ∧
      Source.program? script.program.globals.toList
        (Job.draft ⟨Graph.sample, "sample", none⟩ layout).1.assembly.bodyLines =
          some (script.program.code, script.program.entries) := by
  obtain ⟨layout, script, laid, compiled, -, reads⟩ :=
    source_reads_back Graph.sample_accepted (by decide +kernel) "sample" none Graph.sample_fits 9
  exact ⟨layout, script, laid, compiled, reads⟩

end NodeScript
