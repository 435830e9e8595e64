import NodeScript.Proofs.Compile.Order
import NodeScript.Proofs.Compile.Soundness
import NodeScript.Proofs.Compile.Success

/-!
What lowering puts out of a graph, whatever circles and joins it has. Chains are laid out by rules
that no bound on the depth enters, and there is one layout by these rules; it places what can be
reached from Start, each node once. The code of a unit consists of the blocks of the placed nodes,
one behind the other, and of single instructions between them that end the execution or jump to a
block. So it grows with the number of nodes that are reached, not with the number of paths.
-/
namespace NodeScript

namespace Chain

variable {g : Graph} {placed after after' : List Uuid} {target : Option Uuid} {chain chain' : Chain}

/-- A chain is determined by its target and by what has been placed before. -/
theorem Lays.unique (laid : Lays g placed target chain after)
    (laid' : Lays g placed target chain' after') : chain = chain' ∧ after = after' := by
  induction laid generalizing chain' after' with
  | stop =>
    cases laid'
    exact ⟨rfl, rfl⟩
  | jump seen =>
    cases laid' with
    | jump => exact ⟨rfl, rfl⟩
    | step fresh | branch fresh => exact absurd seen fresh
  | step fresh found _ single _ ih =>
    cases laid' with
    | jump seen => exact absurd seen fresh
    | step _ found' _ _ next' =>
      obtain rfl := Option.some.inj (found.symm.trans found')
      obtain ⟨rfl, rfl⟩ := ih next'
      exact ⟨rfl, rfl⟩
    | branch _ found' _ double =>
      obtain rfl := Option.some.inj (found.symm.trans found')
      cases single.symm.trans double
  | branch fresh found _ double _ _ holdsIh failsIh =>
    cases laid' with
    | jump seen => exact absurd seen fresh
    | step _ found' _ single =>
      obtain rfl := Option.some.inj (found.symm.trans found')
      cases single.symm.trans double
    | branch _ found' _ _ holds' fails' =>
      obtain rfl := Option.some.inj (found.symm.trans found')
      obtain ⟨rfl, rfl⟩ := holdsIh holds'
      obtain ⟨rfl, rfl⟩ := failsIh fails'
      exact ⟨rfl, rfl⟩

theorem LaysAll.unique {triggers : List Trigger} {layout layout' : Layout}
    (laid : LaysAll g triggers placed layout after)
    (laid' : LaysAll g triggers placed layout' after') : layout = layout' ∧ after = after' := by
  induction laid generalizing layout' after' with
  | done =>
    cases laid'
    exact ⟨rfl, rfl⟩
  | skip unlinked _ ih =>
    cases laid' with
    | skip _ others' => exact ih others'
    | lead linked => cases unlinked.symm.trans linked
  | lead linked laid _ ih =>
    cases laid' with
    | skip unlinked => cases unlinked.symm.trans linked
    | lead linked' chain' others' =>
      obtain rfl := Option.some.inj (linked.symm.trans linked')
      obtain ⟨rfl, rfl⟩ := laid.unique chain'
      obtain ⟨rfl, rfl⟩ := ih others'
      exact ⟨rfl, rfl⟩

end Chain

/-! Titles -/

/-- The title of a node, where a line gives one. -/
def Line.title? : Line → Option String
  | .statement _ (.comment title) => some title
  | _ => none

theorem Node.titles_lines (g : Graph) (spell : Variable → String) (indent : Nat) (node : Node) :
    (node.lines g spell indent).filterMap Line.title? = [node.kind.title] := by
  have constants : (node.constants g).filterMap (Line.title? ∘ fun c =>
      .statement (indent + 1) (.constant c.type c.name c.value)) = [] :=
    List.filterMap_eq_nil_iff.mpr fun _ _ => rfl
  have statements : (node.statements g spell (indent + 1)).filterMap Line.title? = [] := by
    unfold statements
    cases node.kind <;> rfl
  rw [lines, List.filterMap_append, List.filterMap_append, List.filterMap_map, constants,
    statements, opening]
  split <;> rfl

theorem Node.titles_prelude (spell : Variable → String) (indent : Nat) (node : Node) :
    ((node.prelude spell).toList.map (Line.statement indent)).filterMap Line.title? = [] := by
  unfold prelude
  cases node.kind <;> rfl

theorem Chain.titles_lines (g : Graph) (chain : Chain) (indent : Nat) :
    (chain.lines g indent).filterMap Line.title? = chain.nodes.map (·.kind.title) := by
  induction chain generalizing indent with
  | stop | jump => rfl
  | step node rest ih =>
    rw [lines, List.filterMap_append, node.titles_lines, List.filterMap_cons_none rfl, ih]
    rfl
  | branch node first second ihFirst ihSecond =>
    rw [lines, List.filterMap_append, List.filterMap_append, List.filterMap_cons_none rfl,
      List.filterMap_append, List.filterMap_append, node.titles_lines, ihFirst,
      node.titles_prelude, ihSecond, nodes]
    simp [Line.title?]

namespace Layout

/-- Every placed node has its title in the source once, in the order of placement. -/
theorem titles_lines (g : Graph) (layout : Layout) :
    (layout.lines g).filterMap Line.title? = layout.nodes.map (·.kind.title) := by
  induction layout with
  | nil => rfl
  | cons entry rest ih =>
    rw [lines, List.flatMap_cons, List.cons_append, List.filterMap_cons_none rfl,
      List.filterMap_append, entry.2.titles_lines, nodes, List.flatMap_cons, List.map_append]
    exact congrArg _ ih

/-! What is placed -/

variable {g : Graph} {after : List Uuid} {layout : Layout}

theorem nodup_nodes (laid : Chain.LaysAll g Trigger.all [] layout after) :
    (layout.nodes.map (·.uuid)).Nodup := by
  have distinct := Layout.nodup_keys laid
  rwa [keys_places] at distinct

/-- What is placed is what can be reached from Start and is not Start. -/
theorem mem_nodes_iff (formed : g.WellFormed) (laid : Chain.LaysAll g Trigger.all [] layout after)
    (uuid : Uuid) : uuid ∈ layout.nodes.map (·.uuid) ↔
      g.Reaches g.start.uuid uuid ∧ uuid ≠ g.start.uuid := by
  have entered := layout.preorder formed laid
  have distinct := entered.nodup_visited
  rw [List.map_cons, List.nodup_cons] at distinct
  have reached := entered.mem_iff uuid
  rw [List.map_cons, List.mem_cons] at reached
  rw [← reached]
  constructor
  · rintro member
    refine ⟨.inr member, ?_⟩
    rintro rfl
    exact distinct.1 member
  · rintro ⟨same | member, other⟩
    · exact absurd same other
    · exact member

/-- There are as many placed nodes as nodes that are reached. -/
theorem ncard_reached (formed : g.WellFormed)
    (laid : Chain.LaysAll g Trigger.all [] layout after) :
    Set.ncard {uuid | g.Reaches g.start.uuid uuid ∧ uuid ≠ g.start.uuid} =
      layout.nodes.length := by
  rw [ncard_of_mem_iff (nodup_nodes laid) (mem_nodes_iff formed laid), List.length_map]

end Layout

/-! Addresses -/

namespace Layout.Closed

variable {job : Job} {after : List Uuid} {layout : Layout}

/-- The nodes that have an address in the code are the placed ones. -/
theorem isSome_addressOf? (closed : layout.Closed job.graph after) (uuid : Uuid) :
    uuid ∈ layout.nodes.map (·.uuid) ↔ ((job.draft layout).1.assembly.addressOf? uuid).isSome := by
  have labels := closed.lowered.1.labels
  have placed : uuid ∈ layout.nodes.map (·.uuid) ↔ uuid ∈ after := by
    rw [closed.laid.after_eq, List.append_nil, List.mem_reverse]
    rfl
  rw [placed]
  constructor
  · intro member
    rw [Assembly.addressOf?_placed labels member]
    rfl
  · intro labelled
    rw [Assembly.addressOf?, labels, Option.isSome_map, List.find?_isSome] at labelled
    obtain ⟨label, member, same⟩ := labelled
    obtain ⟨other, inside, rfl⟩ := List.mem_map.mp member
    exact (beq_iff_eq.mp same : other = uuid) ▸ inside

theorem addressOf?_eq (closed : layout.Closed job.graph after) {node : Node}
    (member : node ∈ layout.nodes) :
    (job.draft layout).1.assembly.addressOf? node.uuid =
      some (layout.address job.graph node.uuid).toUInt32 := by
  refine Assembly.addressOf?_placed closed.lowered.1.labels ?_
  rw [closed.laid.after_eq, List.append_nil, List.mem_reverse]
  exact List.mem_map_of_mem member

theorem toNat_address (closed : layout.Closed job.graph after) {node : Node}
    (member : node ∈ layout.nodes) :
    (layout.address job.graph node.uuid).toUInt32.toNat = layout.address job.graph node.uuid := by
  have bounds := (ordered closed.laid closed.agree).2 node member
  refine closed.toNat_toUInt32 ?_
  rw [instructions, length_code]
  omega

/-- No block is empty, so addresses rise with every placed node. -/
theorem pairwise_addresses (closed : layout.Closed job.graph after) :
    (layout.nodes.map fun node => (layout.address job.graph node.uuid).toUInt32).Pairwise (· < ·)
    := by
  rw [List.pairwise_map]
  refine (ordered closed.laid closed.agree).1.imp_of_mem fun {one other} member member' before => ?_
  have size := closed.size_eq member
  rw [UInt32.lt_iff_toNat_lt, closed.toNat_address member, closed.toNat_address member']
  omega

end Layout.Closed

/-- A program that consists of the blocks of nodes, one behind the other, and of single instructions
between them that end the execution or jump to a block. -/
structure Program.MadeOf (p : Program) (g : Graph) (vars : List Variable) (address : Uuid → Nat)
    (nodes : List Node) : Prop where
  blocks : ∀ node ∈ nodes, 0 < node.size g ∧
    ∃ exit, Placed p.code.toList (address node.uuid) (node.code g vars exit)
  apart : nodes.Pairwise fun earlier later =>
    address earlier.uuid + earlier.size g ≤ address later.uuid
  between : ∀ pc < p.code.size, (∃ node ∈ nodes, Inside g address node pc) ∨
    Links p.code.toList address (nodes.map (·.uuid)) pc

/-- The program of a unit consists of the blocks of the placed nodes. -/
theorem Layout.Closed.madeOf {g : Graph} {after : List Uuid} {layout : Layout}
    (closed : layout.Closed g after) :
    (layout.program g).MadeOf g (layout.vars g) (layout.address g) layout.nodes := by
  have placed : after ⊆ layout.nodes.map (·.uuid) := by
    intro uuid member
    obtain ⟨node, inside, rfl⟩ := closed.node_of_mem member
    exact List.mem_map_of_mem inside
  refine ⟨fun node member => ⟨?_, ?_⟩, (ordered closed.laid closed.agree).1, fun pc inside => ?_⟩
  · rw [closed.size_eq member]
    exact Nat.succ_pos _
  · obtain ⟨exit, block⟩ := closed.block member
    exact ⟨_, block.block⟩
  · have upper : pc < 0 + layout.size g := by
      rw [Nat.zero_add, ← layout.length_code (g := g) 0]
      simpa [program] using inside
    exact covers closed.laid (Placed.whole _) closed.agree placed (Nat.zero_le pc) upper

/-- Lowering an accepted graph ends, however its nodes are linked, and puts each node out once that
is reached from Start over the first links of Logic outputs, and no other. There is one layout by
the rules of chains, which bound no depth. The nodes it places are those that are reached; each has
its title in the source once and its block in the code once, and besides blocks there are only ends
and jumps to them. Addresses rise in the order of placement, so no two nodes share one. The code has
at most five instructions for each node that is reached, and three more. -/
theorem lowering_emits_what_is_reached {job : Job} {nodes : List Node} {links : List Link}
    (accepted : Graph.ofParts nodes links = .ok job.graph) (fits : job.Fits) (uuid : Uuid) :
    ∃ (layout : Layout) (after : List Uuid) (script : Script),
      let assembly := (job.draft layout).1.assembly
      let address := layout.address job.graph
      Chain.ofGraph job.graph job.asset = .ok layout ∧
      (∀ layout' after', Chain.LaysAll job.graph Trigger.all [] layout' after' ↔
        layout' = layout ∧ after' = after) ∧
      (job.compile uuid).value = .ok script ∧
      script = assembly.toScript uuid job.asset (job.draft layout).2 ∧
      (layout.nodes.map (·.uuid)).Nodup ∧
      (∀ id, id ∈ layout.nodes.map (·.uuid) ↔
        job.graph.Reaches job.graph.start.uuid id ∧ id ≠ job.graph.start.uuid) ∧
      assembly.lines.toList.filterMap Line.title? = layout.nodes.map (·.kind.title) ∧
      script.program.MadeOf job.graph (layout.vars job.graph) address layout.nodes ∧
      (∀ id, id ∈ layout.nodes.map (·.uuid) ↔ (assembly.addressOf? id).isSome) ∧
      (∀ node ∈ layout.nodes, assembly.addressOf? node.uuid = some (address node.uuid).toUInt32 ∧
        (address node.uuid).toUInt32.toNat = address node.uuid) ∧
      (layout.nodes.map fun node => (address node.uuid).toUInt32).Pairwise (· < ·) ∧
      script.program.code.size ≤ 5 * Set.ncard {id |
        job.graph.Reaches job.graph.start.uuid id ∧ id ≠ job.graph.start.uuid} + 3 := by
  have formed := Graph.wellFormed_of_ofParts accepted
  obtain ⟨layout, after, success, closed⟩ := fits.closed formed
  obtain ⟨script, compiled, program, -⟩ := Job.compile_closed success closed uuid
  obtain ⟨layout', success', -, same⟩ := Job.compile_eq_ok compiled
  obtain rfl := Except.ok.inj (success.symm.trans success')
  refine ⟨layout, after, script, success, ?_, compiled, same, Layout.nodup_nodes closed.laid,
    Layout.mem_nodes_iff formed closed.laid, ?_, ?_, closed.isSome_addressOf?, ?_,
    closed.pairwise_addresses, ?_⟩
  · intro layout' after'
    constructor
    · exact fun laid => laid.unique closed.laid
    · rintro ⟨rfl, rfl⟩
      exact closed.laid
  · rw [(closed.laid.drafted closed.few).2]
    exact Layout.titles_lines job.graph layout
  · rw [program]
    exact closed.madeOf
  · exact fun node member => ⟨closed.addressOf?_eq member, closed.toNat_address member⟩
  · have size : script.program.code.size = Layout.size job.graph layout := by
      rw [program, ← Array.length_toList]
      exact Layout.length_code layout 0
    have bound := Layout.size_le job.graph layout
    have entries : List.length layout ≤ 3 := closed.laid.length_le
    rw [size, Layout.ncard_reached formed closed.laid]
    omega

/-- The sample graph has a circle and a node that two paths lead to, and one that control does not
reach. -/
theorem lowering_emits_what_is_reached_sample :
    ∃ layout script, Chain.ofGraph Graph.sample "sample" = .ok layout ∧
      (Job.compile ⟨Graph.sample, "sample", none⟩ 9).value = .ok script ∧
      Layout.nodes layout = Graph.sample.nodes.filter (·.uuid ∉ [1, 5]) ∧
      (∀ id, id ∈ [2, 3, 4, 6, 7, 8] ↔ Graph.sample.Reaches 1 id ∧ id ≠ 1) ∧
      script.program.code.size ≤ 5 * Set.ncard {id | Graph.sample.Reaches 1 id ∧ id ≠ 1} + 3 := by
  obtain ⟨layout, -, script, laid, -, compiled, -, -, reached, -, -, -, -, -, bound⟩ :=
    lowering_emits_what_is_reached Graph.sample_accepted Graph.sample_fits 9
  have nodes : (Chain.ofGraph Graph.sample "sample").toOption.map Layout.nodes =
      some (Graph.sample.nodes.filter (·.uuid ∉ [1, 5])) := by decide +kernel
  rw [laid] at nodes
  have placed := Option.some.inj nodes
  rw [placed] at reached
  exact ⟨layout, script, laid, compiled, placed, reached, bound⟩

end NodeScript
