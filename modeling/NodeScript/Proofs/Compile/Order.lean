import NodeScript.Proofs.Compile.Placement
import NodeScript.Proofs.Graph.Preorder

/-!
The order of placement. A layout places the nodes that a search from Start enters, in the order in
which it enters them; so a node is placed exactly if it is reached.
-/
namespace NodeScript

namespace Chain

variable {g : Graph} {placed after : List Uuid} {target : Option Uuid} {chain : Chain}

/-- The Logic outputs of a node that something can be linked to. -/
theorem logicOutputs_entered {type : NodeType} (entered : type.inputs ≠ []) :
    type.logicOutputs = if type.branches then [0, 1] else [0] := by
  cases type <;> first | rfl | exact absurd rfl entered

/-- A node that something can be linked to leads on at its first output, and a branching node at
its second as well. -/
theorem targets_entered (g : Graph) {node : Node} (entered : node.type.inputs ≠ []) :
    g.targets node = (g.successor? node.uuid 0).toList ++
      if node.type.branches then (g.successor? node.uuid 1).toList else [] := by
  rw [Graph.targets, logicOutputs_entered entered]
  split
  · cases first : g.successor? node.uuid 0 <;> cases second : g.successor? node.uuid 1 <;>
      simp [first, second]
  · cases first : g.successor? node.uuid 0 <;> simp [first]

/-- A chain places nodes in the order in which a search enters them that has entered Start. -/
theorem Lays.preorder (formed : g.WellFormed) (laid : Lays g placed target chain after) :
    Preorder g (placed ++ [g.start.uuid]) target.toList chain.nodes (after ++ [g.start.uuid]) := by
  induction laid with
  | stop placed => exact .done _
  | jump seen => exact .again (List.mem_append_left _ seen) (.done _)
  | @step placed after uuid node rest fresh found entered single next ih =>
    obtain ⟨-, rfl⟩ := Graph.node?_eq_some found
    have unseen : node.uuid ∉ placed ++ [g.start.uuid] := by
      simpa using ⟨fresh, formed.ne_start found entered⟩
    have targets := targets_entered g entered
    simp only [single, Bool.false_eq_true, if_false, List.append_nil] at targets
    have inside := Preorder.enter unseen found (targets ▸ ih) (.done _)
    rwa [List.append_nil] at inside
  | @branch placed middle after uuid node first second fresh found entered double holds fails
      firstIh secondIh =>
    obtain ⟨-, rfl⟩ := Graph.node?_eq_some found
    have unseen : node.uuid ∉ placed ++ [g.start.uuid] := by
      simpa using ⟨fresh, formed.ne_start found entered⟩
    have targets := targets_entered g entered
    simp only [double, if_true] at targets
    have inside := Preorder.enter unseen found (targets ▸ firstIh.append secondIh) (.done _)
    rwa [List.append_nil] at inside

theorem LaysAll.preorder (formed : g.WellFormed) {triggers : List Trigger} {layout : Layout}
    (laid : LaysAll g triggers placed layout after) :
    Preorder g (placed ++ [g.start.uuid])
      (triggers.filterMap fun trigger => g.successor? g.start.uuid trigger.pin)
      layout.nodes (after ++ [g.start.uuid]) := by
  induction laid with
  | done placed => exact .done _
  | skip unlinked _ ih => simpa [unlinked] using ih
  | lead linked chain _ ih =>
    have first := chain.preorder formed
    simpa [linked, Layout.nodes] using first.append ih

end Chain

/-- A search from Start enters the placed nodes in the order of their placement. -/
theorem Layout.preorder {g : Graph} {after : List Uuid} {layout : Layout} (formed : g.WellFormed)
    (laid : Chain.LaysAll g Trigger.all [] layout after) :
    Preorder g [] [g.start.uuid] (g.start :: layout.nodes) (after ++ [g.start.uuid]) := by
  obtain ⟨found, type⟩ := formed.node?_start
  have targets : g.targets g.start =
      Trigger.all.filterMap fun trigger => g.successor? g.start.uuid trigger.pin := by
    rw [Graph.targets, type]
    rfl
  have inside := laid.preorder formed
  rw [← targets] at inside
  have entered := Preorder.enter List.not_mem_nil found inside (.done _)
  rwa [List.append_nil] at entered

/-- All that is reached from Start is placed. -/
theorem Layout.mem_of_reaches {g : Graph} {after : List Uuid} {layout : Layout}
    (formed : g.WellFormed) (laid : Chain.LaysAll g Trigger.all [] layout after) {uuid : Uuid}
    {node : Node} (found : g.node? uuid = some node) (other : node.type ≠ .start)
    (reached : g.Reaches g.start.uuid uuid) : node ∈ layout.nodes := by
  obtain ⟨start, type⟩ := formed.node?_start
  have entered := ((layout.preorder formed laid).mem_iff uuid).mpr reached
  rw [List.map_cons, List.mem_cons] at entered
  rcases entered with rfl | entered
  · obtain rfl := Option.some.inj (start.symm.trans found)
    exact absurd type other
  · obtain ⟨placed, member, rfl⟩ := List.mem_map.mp entered
    obtain rfl := Option.some.inj ((laid.node_mem placed member).1.symm.trans found)
    exact member

end NodeScript
