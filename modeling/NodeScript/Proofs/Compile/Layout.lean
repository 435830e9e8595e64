import Mathlib.Data.List.Nodup
import NodeScript.Compile.Chain
import NodeScript.Proofs.Graph.Accepted

/-!
The layout of an accepted graph. `Lays` says what a chain is without the bound on the depth of the
search, and `lay_success` that the search never meets that bound: every node on its path has been
placed, and no node is placed twice. So a well-formed graph always has a layout.
-/
namespace NodeScript.Chain

/-- The nodes that a chain places, in the order of their placement. -/
def nodes : Chain → List Node
  | stop | jump _ => []
  | step node rest => node :: rest.nodes
  | branch node first second => node :: (first.nodes ++ second.nodes)

/-- How a chain is laid out from a target on. The lists hold the nodes placed before it and by its
end, the latest first. -/
inductive Lays (g : Graph) : List Uuid → Option Uuid → Chain → List Uuid → Prop
  | stop (placed : List Uuid) : Lays g placed none .stop placed
  | jump {placed : List Uuid} {uuid : Uuid} (seen : uuid ∈ placed) :
      Lays g placed (some uuid) (.jump uuid) placed
  | step {placed after : List Uuid} {uuid : Uuid} {node : Node} {rest : Chain}
      (fresh : uuid ∉ placed) (found : g.node? uuid = some node)
      (entered : node.type.inputs ≠ []) (single : node.type.branches = false)
      (next : Lays g (uuid :: placed) (g.successor? uuid 0) rest after) :
      Lays g placed (some uuid) (.step node rest) after
  | branch {placed middle after : List Uuid} {uuid : Uuid} {node : Node} {first second : Chain}
      (fresh : uuid ∉ placed) (found : g.node? uuid = some node)
      (entered : node.type.inputs ≠ []) (double : node.type.branches = true)
      (holds : Lays g (uuid :: placed) (g.successor? uuid 0) first middle)
      (fails : Lays g middle (g.successor? uuid 1) second after) :
      Lays g placed (some uuid) (.branch node first second) after

variable {g : Graph} {placed after : List Uuid} {target : Option Uuid} {chain : Chain}

theorem Lays.after_eq (laid : Lays g placed target chain after) :
    after = (chain.nodes.map (·.uuid)).reverse ++ placed := by
  induction laid with
  | stop | jump => rfl
  | step _ found _ _ _ ih =>
    obtain ⟨-, rfl⟩ := Graph.node?_eq_some found
    simp [nodes, ih]
  | branch _ found _ _ _ _ first second =>
    obtain ⟨-, rfl⟩ := Graph.node?_eq_some found
    simp [nodes, second, first]

theorem Lays.subset (laid : Lays g placed target chain after) : placed ⊆ after := by
  rw [laid.after_eq]
  exact List.subset_append_right _ _

theorem Lays.nodup (laid : Lays g placed target chain after) (distinct : placed.Nodup) :
    after.Nodup := by
  induction laid with
  | stop | jump => exact distinct
  | step fresh _ _ _ _ ih => exact ih (List.nodup_cons.mpr ⟨fresh, distinct⟩)
  | branch fresh _ _ _ _ _ first second =>
    exact second (first (List.nodup_cons.mpr ⟨fresh, distinct⟩))

/-- Placed nodes are nodes of the graph that something can be linked to. -/
theorem Lays.node_mem (laid : Lays g placed target chain after) :
    ∀ node ∈ chain.nodes, g.node? node.uuid = some node ∧ node.type.inputs ≠ [] := by
  induction laid with
  | stop | jump => simp [nodes]
  | step _ found entered _ _ ih =>
    obtain ⟨-, rfl⟩ := Graph.node?_eq_some found
    simpa [nodes] using ⟨⟨found, entered⟩, ih⟩
  | branch _ found entered _ _ _ first second =>
    obtain ⟨-, rfl⟩ := Graph.node?_eq_some found
    intro node member
    rcases List.mem_cons.mp member with rfl | member
    · exact ⟨found, entered⟩
    · rcases List.mem_append.mp member with member | member
      · exact first node member
      · exact second node member

/-- Only identifiers of nodes are ever placed. -/
theorem Lays.subset_nodes (laid : Lays g placed target chain after)
    (known : placed ⊆ g.nodes.map (·.uuid)) : after ⊆ g.nodes.map (·.uuid) := by
  rw [laid.after_eq]
  intro uuid member
  rcases List.mem_append.mp member with member | member
  · obtain ⟨node, inside, rfl⟩ := List.mem_map.mp (List.mem_reverse.mp member)
    exact List.mem_map_of_mem (Graph.node?_eq_some (laid.node_mem node inside).1).1
  · exact known member

theorem checkSources_success (formed : g.WellFormed) (asset : String) (node : Node) :
    checkSources g asset node = .ok () := by
  unfold checkSources
  have sources : ∀ link ∈ node.type.valueInputs.filterMap fun pin => g.linkInto? node.uuid pin,
      (g.node? link.fromNode).isSome := by
    intro link member
    obtain ⟨pin, -, found⟩ := List.mem_filterMap.mp member
    exact formed.source (List.mem_of_find?_eq_some found)
  generalize (node.type.valueInputs.filterMap fun pin => g.linkInto? node.uuid pin) = links
    at sources
  induction links with
  | nil => rfl
  | cons link rest ih =>
    have others := ih fun other member => sources other (List.mem_cons_of_mem _ member)
    simpa [List.forM, sources link, bind, Except.bind] using others

/-- A chain can be laid out in a depth that leaves room for the nodes that are not placed yet. -/
theorem lay_success (formed : g.WellFormed) (asset : String) (depth : Nat) (placed : List Uuid)
    (source : Uuid) (pin : UInt16) (distinct : placed.Nodup)
    (known : placed ⊆ g.nodes.map (·.uuid)) (room : g.nodes.length < depth + placed.length) :
    ∃ chain after, lay g asset depth placed source pin = .ok (chain, after) ∧
      Lays g placed (g.successor? source pin) chain after := by
  induction depth generalizing placed source pin with
  | zero =>
    have bound := distinct.length_le_of_subset known
    rw [List.length_map] at bound
    omega
  | succ depth ih =>
    unfold lay
    cases linked : g.successor? source pin with
    | none => exact ⟨.stop, placed, rfl, .stop placed⟩
    | some uuid =>
      by_cases seen : uuid ∈ placed
      · exact ⟨.jump uuid, placed, by simp [seen], .jump seen⟩
      · obtain ⟨node, found, entered⟩ := formed.successor linked
        have inside : uuid ∈ g.nodes.map (·.uuid) := by
          obtain ⟨member, rfl⟩ := Graph.node?_eq_some found
          exact List.mem_map_of_mem member
        have distinct' : (uuid :: placed).Nodup := List.nodup_cons.mpr ⟨seen, distinct⟩
        have known' : uuid :: placed ⊆ g.nodes.map (·.uuid) := List.cons_subset.mpr ⟨inside, known⟩
        obtain ⟨first, middle, laidFirst, first_lays⟩ :=
          ih (uuid :: placed) uuid 0 distinct' known' (by simp only [List.length_cons]; omega)
        cases branches : node.type.branches with
        | false =>
          refine ⟨.step node first, middle, ?_, .step seen found entered branches first_lays⟩
          simp [seen, found, checkSources_success formed, laidFirst, branches, bind, Except.bind,
            pure, Except.pure]
        | true =>
          have growth : placed.length < middle.length := by
            rw [first_lays.after_eq]
            simp only [List.length_append, List.length_cons]
            omega
          obtain ⟨second, after, laidSecond, second_lays⟩ :=
            ih middle uuid 1 (first_lays.nodup distinct') (first_lays.subset_nodes known')
              (by omega)
          refine ⟨.branch node first second, after, ?_,
            .branch seen found entered branches first_lays second_lays⟩
          simp [seen, found, checkSources_success formed, laidFirst, laidSecond, branches, bind,
            Except.bind, pure, Except.pure]

/-- How the linked Start outputs are laid out, each given what the outputs before it have placed. -/
inductive LaysAll (g : Graph) :
    List Trigger → List Uuid → List (Trigger × Chain) → List Uuid → Prop
  | done (placed : List Uuid) : LaysAll g [] placed [] placed
  | skip {placed after : List Uuid} {trigger : Trigger} {rest : List Trigger}
      {layout : List (Trigger × Chain)}
      (unlinked : g.successor? g.start.uuid trigger.pin = none)
      (others : LaysAll g rest placed layout after) :
      LaysAll g (trigger :: rest) placed layout after
  | lead {placed middle after : List Uuid} {trigger : Trigger} {rest : List Trigger}
      {target : Uuid} {chain : Chain} {layout : List (Trigger × Chain)}
      (linked : g.successor? g.start.uuid trigger.pin = some target)
      (laid : Lays g placed (some target) chain middle)
      (others : LaysAll g rest middle layout after) :
      LaysAll g (trigger :: rest) placed ((trigger, chain) :: layout) after

theorem layEntries_success (formed : g.WellFormed) (asset : String) (triggers : List Trigger)
    (placed : List Uuid) (distinct : placed.Nodup) (known : placed ⊆ g.nodes.map (·.uuid)) :
    ∃ layout after, layEntries g asset triggers placed = .ok layout ∧
      LaysAll g triggers placed layout after := by
  induction triggers generalizing placed with
  | nil => exact ⟨[], placed, rfl, .done placed⟩
  | cons trigger rest ih =>
    unfold layEntries
    cases linked : g.successor? g.start.uuid trigger.pin with
    | none =>
      obtain ⟨layout, after, success, laid⟩ := ih placed distinct known
      exact ⟨layout, after, by simpa using success, .skip linked laid⟩
    | some target =>
      obtain ⟨chain, middle, laidChain, chain_lays⟩ :=
        lay_success formed asset (g.nodes.length + 1) placed g.start.uuid trigger.pin distinct
          known (by omega)
      obtain ⟨layout, after, success, laid⟩ :=
        ih middle (chain_lays.nodup distinct) (chain_lays.subset_nodes known)
      rw [linked] at chain_lays
      refine ⟨(trigger, chain) :: layout, after, ?_, .lead linked chain_lays laid⟩
      simp [laidChain, success, bind, Except.bind, pure, Except.pure]

/-- Every accepted graph has a layout. -/
theorem ofGraph_success (formed : g.WellFormed) (asset : String) :
    ∃ layout after, ofGraph g asset = .ok layout ∧ LaysAll g Trigger.all [] layout after :=
  layEntries_success formed asset Trigger.all [] List.nodup_nil (by simp)

theorem LaysAll.after_eq {triggers : List Trigger} {layout : List (Trigger × Chain)}
    (laid : LaysAll g triggers placed layout after) :
    after = ((layout.flatMap fun entry => entry.2.nodes).map (·.uuid)).reverse ++ placed := by
  induction laid with
  | done => rfl
  | skip _ _ ih => exact ih
  | lead _ laid _ ih => simp [ih, laid.after_eq]

theorem LaysAll.subset {triggers : List Trigger} {layout : List (Trigger × Chain)}
    (laid : LaysAll g triggers placed layout after) : placed ⊆ after := by
  rw [laid.after_eq]
  exact List.subset_append_right _ _

theorem LaysAll.node_mem {triggers : List Trigger} {layout : List (Trigger × Chain)}
    (laid : LaysAll g triggers placed layout after) :
    ∀ node ∈ layout.flatMap fun entry => entry.2.nodes,
      g.node? node.uuid = some node ∧ node.type.inputs ≠ [] := by
  induction laid with
  | done => simp
  | skip _ _ ih => exact ih
  | lead _ laid _ ih =>
    intro node member
    rcases List.mem_append.mp member with member | member
    · exact laid.node_mem node member
    · exact ih node member

theorem LaysAll.nodup {triggers : List Trigger} {layout : List (Trigger × Chain)}
    (laid : LaysAll g triggers placed layout after) (distinct : placed.Nodup) : after.Nodup := by
  induction laid with
  | done => exact distinct
  | skip _ _ ih => exact ih distinct
  | lead _ laid _ ih => exact ih (laid.nodup distinct)

end NodeScript.Chain
