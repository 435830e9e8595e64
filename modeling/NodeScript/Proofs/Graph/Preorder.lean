import Mathlib.Data.Set.Card
import Mathlib.Logic.Relation
import NodeScript.Proofs.Graph.Accepted

/-!
The order in which a depth-first search enters the nodes of a graph, over the first link of each
Logic output. `Preorder` says what the order is by recursion, without a stack and without a bound
on the visits; it gives each node that is reached exactly once.
-/
namespace NodeScript

/-- The nodes that the Logic outputs of a node lead to, in the order of the outputs. -/
def Graph.targets (g : Graph) (node : Node) : List Uuid :=
  node.type.logicOutputs.filterMap fun pin => g.successor? node.uuid pin

/-- A node of the graph leads on to another. -/
def Graph.LeadsTo (g : Graph) (source target : Uuid) : Prop :=
  ∃ node, g.node? source = some node ∧ target ∈ g.targets node

/-- A node is reached along Logic outputs. -/
abbrev Graph.Reaches (g : Graph) : Uuid → Uuid → Prop := Relation.ReflTransGen g.LeadsTo

/-- How the pending nodes are entered one after the other: each with all that it leads to before the
next one, and none that has been entered. The lists hold the nodes entered before and by the end,
the latest first. -/
inductive Preorder (g : Graph) :
    (seen : List Uuid) → (pending : List Uuid) → (visited : List Node) → (after : List Uuid) → Prop
  | done (seen : List Uuid) : Preorder g seen [] [] seen
  | again {seen after pending : List Uuid} {uuid : Uuid} {visited : List Node} (known : uuid ∈ seen)
      (others : Preorder g seen pending visited after) :
      Preorder g seen (uuid :: pending) visited after
  | enter {seen middle after pending : List Uuid} {uuid : Uuid} {node : Node}
      {below visited : List Node} (fresh : uuid ∉ seen) (found : g.node? uuid = some node)
      (inside : Preorder g (uuid :: seen) (g.targets node) below middle)
      (others : Preorder g middle pending visited after) :
      Preorder g seen (uuid :: pending) (node :: (below ++ visited)) after

/-- As many items have a property as stand in a list that names each of them once. -/
theorem ncard_of_mem_iff {α : Type} [DecidableEq α] {holds : α → Prop} {items : List α}
    (distinct : items.Nodup) (named : ∀ item, item ∈ items ↔ holds item) :
    Set.ncard {item | holds item} = items.length := by
  have same : {item | holds item} = (items.toFinset : Set α) := by
    ext item
    rw [List.coe_toFinset]
    exact (named item).symm
  rw [same, Set.ncard_coe_finset, List.toFinset_card_of_nodup distinct]

namespace Preorder

variable {g : Graph} {seen middle after pending pending' : List Uuid} {visited visited' : List Node}

theorem append (first : Preorder g seen pending visited middle)
    (second : Preorder g middle pending' visited' after) :
    Preorder g seen (pending ++ pending') (visited ++ visited') after := by
  induction first with
  | done => exact second
  | again known _ ih => exact .again known (ih second)
  | enter fresh found inside _ _ ih =>
    rw [List.cons_append, List.cons_append, List.append_assoc]
    exact .enter fresh found inside (ih second)

/-- What is entered from a part of the pending nodes comes before what is entered from the rest. -/
theorem split (entered : Preorder g seen (pending ++ pending') visited after) :
    ∃ first second middle, visited = first ++ second ∧ Preorder g seen pending first middle ∧
      Preorder g middle pending' second after := by
  induction pending generalizing seen visited with
  | nil => exact ⟨[], visited, seen, rfl, .done seen, entered⟩
  | cons uuid rest ih =>
    cases entered with
    | again known others =>
      obtain ⟨first, second, middle, rfl, left, right⟩ := ih others
      exact ⟨first, second, middle, rfl, .again known left, right⟩
    | enter fresh found inside others =>
      obtain ⟨first, second, middle, rfl, left, right⟩ := ih others
      exact ⟨_, second, middle, by simp, .enter fresh found inside left, right⟩

/-- The order is determined by the graph. -/
theorem unique {after' : List Uuid} (entered : Preorder g seen pending visited after)
    (entered' : Preorder g seen pending visited' after') : visited = visited' ∧ after = after' := by
  induction entered generalizing visited' after' with
  | done =>
    cases entered'
    exact ⟨rfl, rfl⟩
  | again known _ ih =>
    cases entered' with
    | again _ others' => exact ih others'
    | enter fresh => exact absurd known fresh
  | enter fresh found _ _ insideIh othersIh =>
    cases entered' with
    | again known => exact absurd known fresh
    | enter _ found' inside' others' =>
      obtain rfl := Option.some.inj (found.symm.trans found')
      obtain ⟨rfl, rfl⟩ := insideIh inside'
      obtain ⟨rfl, rfl⟩ := othersIh others'
      exact ⟨rfl, rfl⟩

theorem after_eq (entered : Preorder g seen pending visited after) :
    after = (visited.map (·.uuid)).reverse ++ seen := by
  induction entered with
  | done => rfl
  | again _ _ ih => exact ih
  | enter _ found _ _ insideIh othersIh => simp [othersIh, insideIh, (Graph.node?_eq_some found).2]

/-- No node is entered twice. -/
theorem nodup (entered : Preorder g seen pending visited after) (distinct : seen.Nodup) :
    after.Nodup := by
  induction entered with
  | done => exact distinct
  | again _ _ ih => exact ih distinct
  | enter fresh _ _ _ insideIh othersIh =>
    exact othersIh (insideIh (List.nodup_cons.mpr ⟨fresh, distinct⟩))

theorem nodup_visited (entered : Preorder g [] pending visited after) :
    (visited.map (·.uuid)).Nodup := by
  have distinct := entered.nodup List.nodup_nil
  rwa [entered.after_eq, List.append_nil, List.nodup_reverse] at distinct

theorem found (entered : Preorder g seen pending visited after) :
    ∀ node ∈ visited, g.node? node.uuid = some node := by
  induction entered with
  | done => simp
  | again _ _ ih => exact ih
  | enter _ found _ _ insideIh othersIh =>
    intro node member
    rcases List.mem_cons.mp member with rfl | member
    · rw [(Graph.node?_eq_some found).2, found]
    · rcases List.mem_append.mp member with member | member
      · exact insideIh node member
      · exact othersIh node member

/-- Only what can be reached is entered. -/
theorem reaches (entered : Preorder g seen pending visited after) :
    ∀ node ∈ visited, ∃ uuid ∈ pending, g.Reaches uuid node.uuid := by
  induction entered with
  | done => simp
  | again _ _ ih =>
    intro node member
    obtain ⟨uuid, root, path⟩ := ih node member
    exact ⟨uuid, List.mem_cons_of_mem _ root, path⟩
  | @enter _ _ _ _ uuid top _ _ _ found _ _ insideIh othersIh =>
    intro node member
    rcases List.mem_cons.mp member with rfl | member
    · exact ⟨uuid, List.mem_cons_self, (Graph.node?_eq_some found).2 ▸ .refl⟩
    · rcases List.mem_append.mp member with member | member
      · obtain ⟨target, leads, path⟩ := insideIh node member
        exact ⟨uuid, List.mem_cons_self, path.head ⟨top, found, leads⟩⟩
      · obtain ⟨root, pending, path⟩ := othersIh node member
        exact ⟨root, List.mem_cons_of_mem _ pending, path⟩

/-- The first pending node comes first. -/
theorem head?_eq {uuid : Uuid} {node : Node} (entered : Preorder g [] (uuid :: pending) visited after)
    (found : g.node? uuid = some node) : visited.head? = some node := by
  cases entered with
  | again known => cases known
  | enter _ found' => exact found'.symm.trans found

theorem subset (entered : Preorder g seen pending visited after) : seen ⊆ after := by
  rw [entered.after_eq]
  exact List.subset_append_right _ _

/-- All that is pending is entered, and all that an entered node leads to. -/
theorem closed (entered : Preorder g seen pending visited after) :
    pending ⊆ after ∧ ∀ source ∈ after, source ∈ seen ∨ ∀ target, g.LeadsTo source target →
      target ∈ after := by
  induction entered with
  | done => exact ⟨List.nil_subset _, fun _ member => .inl member⟩
  | again known others ih => exact ⟨List.cons_subset.mpr ⟨others.subset known, ih.1⟩, ih.2⟩
  | @enter _ _ _ _ uuid node _ _ _ found inside others insideIh othersIh =>
    have kept := inside.subset
    refine ⟨List.cons_subset.mpr ⟨others.subset (kept List.mem_cons_self), othersIh.1⟩, ?_⟩
    intro source member
    rcases othersIh.2 source member with earlier | closed
    · rcases insideIh.2 source earlier with earlier | closed
      · rcases List.mem_cons.mp earlier with rfl | earlier
        · refine .inr fun target ⟨node', found', leads⟩ => ?_
          obtain rfl := Option.some.inj (found.symm.trans found')
          exact others.subset (insideIh.1 leads)
        · exact .inl earlier
      · exact .inr fun target leads => others.subset (closed target leads)
    · exact .inr closed

/-- From one node on exactly those are entered that it reaches. -/
theorem mem_iff {root : Uuid} (entered : Preorder g [] [root] visited after) (uuid : Uuid) :
    uuid ∈ visited.map (·.uuid) ↔ g.Reaches root uuid := by
  have all (uuid : Uuid) : uuid ∈ visited.map (·.uuid) ↔ uuid ∈ after := by
    simp [entered.after_eq]
  constructor
  · intro member
    obtain ⟨node, visit, rfl⟩ := List.mem_map.mp member
    obtain ⟨start, pending, path⟩ := entered.reaches node visit
    exact List.mem_singleton.mp pending ▸ path
  · intro path
    rw [all]
    induction path with
    | refl => exact entered.closed.1 List.mem_cons_self
    | tail _ leads ih =>
      exact ((entered.closed.2 _ ih).resolve_left List.not_mem_nil) _ leads

/-- As many nodes are entered as are reached. -/
theorem ncard_reached {root : Uuid} (entered : Preorder g [] [root] visited after) :
    Set.ncard {uuid | g.Reaches root uuid} = visited.length := by
  rw [ncard_of_mem_iff entered.nodup_visited entered.mem_iff, List.length_map]

end Preorder

end NodeScript
