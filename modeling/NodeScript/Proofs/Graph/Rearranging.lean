import NodeScript.Proofs.Graph.Histories
import NodeScript.Proofs.Graph.Preorder

/-!
What compilation can tell of a graph. It goes from Start along the first links of Logic outputs, and
asks of each node that it meets where its outputs lead and what its Value inputs read. So graphs
that agree about these nodes are the same to it: a graph in another order, and, but for labels in
source, a graph without a node that is not used.
-/
namespace NodeScript.Graph

variable {g h : Graph}

/-- The first link into an input pin, with the kind of the node it comes from. -/
def feed? (g : Graph) (uuid : Uuid) (pin : UInt16) : Option (Link × Option NodeKind) :=
  (g.linkInto? uuid pin).map fun link => (link, (g.node? link.fromNode).map (·.kind))

/-- Two nodes, each in a graph, that are lowered to the same instructions and, if `whole`, to the
same text with the same reports. -/
structure Alike (whole : Prop) (g h : Graph) (a b : Node) : Prop where
  uuid : a.uuid = b.uuid
  kind : a.kind = b.kind
  successor : ∀ pin ∈ a.type.logicOutputs, g.successor? a.uuid pin = h.successor? a.uuid pin
  feed : ∀ pin ∈ a.type.valueInputs, g.feed? a.uuid pin = h.feed? a.uuid pin
  joins : whole → g.logicInDegree a.uuid = h.logicInDegree a.uuid
  fans : whole → ∀ pin, (g.linksFrom a.uuid pin).length = (h.linksFrom a.uuid pin).length

/-- Two graphs that agree about the live nodes, which are those that can be met at least. -/
structure Agrees (whole : Prop) (live : Uuid → Prop) (g h : Graph) : Prop where
  start : g.start.uuid = h.start.uuid
  begins : live g.start.uuid
  leads : ∀ {source target : Uuid}, live source → g.LeadsTo source target → live target
  node : ∀ {uuid : Uuid} {a : Node}, live uuid → g.node? uuid = some a →
    ∃ b, h.node? uuid = some b ∧ Alike whole g h a b

theorem Alike.type {whole : Prop} {a b : Node} (alike : Alike whole g h a b) : a.type = b.type :=
  congrArg NodeKind.type alike.kind

theorem successor?_eq (g : Graph) (uuid : Uuid) (pin : UInt16) :
    g.successor? uuid pin =
      (g.links.find? fun link => link.fromNode == uuid && link.fromPin == pin).map (·.toNode) := by
  rw [successor?, linksFrom, List.head?_filter]

theorem WellFormed.eq_start (formed : g.WellFormed) {node : Node} (member : node ∈ g.nodes)
    (type : node.type = .start) : node = g.start := by
  obtain ⟨found, type'⟩ := formed.node?_start
  obtain ⟨only, alone⟩ := List.length_eq_one_iff.mp formed.one_start
  have same (other : Node) (inside : other ∈ g.nodes) (type : other.type = .start) :
      other = only := by
    have kept : other ∈ g.nodes.filter fun node => node.type == .start :=
      List.mem_filter.mpr ⟨inside, beq_iff_eq.mpr type⟩
    rw [alone] at kept
    exact List.mem_singleton.mp kept
  rw [same node member type, same g.start (node?_eq_some found).1 type']

/-! Another order -/

/-- The same nodes and links in another order, with nodes at other positions. Links that share a pin
come in the same order. -/
structure Rearranged (g h : Graph) : Prop where
  nodes : (g.nodes.map fun node => (node.uuid, node.kind)).Perm
    (h.nodes.map fun node => (node.uuid, node.kind))
  links : g.links.Perm h.links
  outputs : ∀ uuid pin, g.linksFrom uuid pin = h.linksFrom uuid pin
  inputs : ∀ uuid pin, g.linksInto uuid pin = h.linksInto uuid pin

/-- Where keys are distinct it does not matter in which order they are searched. -/
theorem find?_key_perm {κ α : Type} [BEq κ] [LawfulBEq κ] {entries entries' : List (κ × α)}
    (perm : entries.Perm entries') (distinct : (entries.map Prod.fst).Nodup) (key : κ) :
    (entries.find? fun entry => entry.1 == key) = entries'.find? fun entry => entry.1 == key := by
  induction perm with
  | nil => rfl
  | cons entry _ ih => rw [List.find?_cons, List.find?_cons, ih (List.nodup_cons.mp distinct).2]
  | swap first second rest =>
    have differs : second.1 ≠ first.1 := fun same =>
      (List.nodup_cons.mp distinct).1 (same ▸ List.mem_cons_self ..)
    by_cases here : first.1 = key
    · have passed : (second.1 == key) = false := beq_eq_false_iff_ne.mpr (here ▸ differs)
      simp [List.find?_cons, passed]
    · have passed : (first.1 == key) = false := beq_eq_false_iff_ne.mpr here
      simp [List.find?_cons, passed]
  | trans first _ ih ih' => exact (ih distinct).trans (ih' ((first.map _).nodup_iff.mp distinct))

namespace Rearranged

theorem kind (rearranged : g.Rearranged h) (formed : g.WellFormed) (uuid : Uuid) :
    (g.node? uuid).map (·.kind) = (h.node? uuid).map (·.kind) := by
  have kinds (f : Graph) : (f.node? uuid).map (·.kind) =
      ((f.nodes.map fun node => (node.uuid, node.kind)).find? fun entry => entry.1 == uuid).map
        (·.2) := by
    simp [node?, List.find?_map, Function.comp_def]
  have distinct : ((g.nodes.map fun node => (node.uuid, node.kind)).map Prod.fst).Nodup := by
    simpa [Function.comp_def] using formed.distinct
  rw [kinds, kinds, find?_key_perm rearranged.nodes distinct]

theorem node? (rearranged : g.Rearranged h) (formed : g.WellFormed) {uuid : Uuid} {a : Node}
    (found : g.node? uuid = some a) :
    ∃ b, h.node? uuid = some b ∧ a.uuid = b.uuid ∧ a.kind = b.kind := by
  have kinds := rearranged.kind formed uuid
  rw [found, Option.map_some] at kinds
  obtain ⟨b, found', same⟩ := Option.map_eq_some_iff.mp kinds.symm
  exact ⟨b, found', (node?_eq_some found).2.trans (node?_eq_some found').2.symm, same.symm⟩

theorem pinKind? (rearranged : g.Rearranged h) (formed : g.WellFormed) (side : Side) (uuid : Uuid)
    (pin : UInt16) : g.pinKind? side uuid pin = h.pinKind? side uuid pin := by
  have pins (f : Graph) : f.pinKind? side uuid pin =
      ((f.node? uuid).map (·.kind)).bind fun kind => (kind.type.pin? side pin).map (·.kind) := by
    rw [Graph.pinKind?, Option.bind_map]
    rfl
  rw [pins, pins, rearranged.kind formed]

theorem wellFormed (rearranged : g.Rearranged h) (formed : g.WellFormed) : h.WellFormed := by
  refine ⟨?_, ?_, fun link member => ?_⟩
  · have uuids := rearranged.nodes.map Prod.fst
    simp only [List.map_map, Function.comp_def] at uuids
    exact uuids.nodup_iff.mp formed.distinct
  · have starts := (rearranged.nodes.filter fun entry => entry.2.type == .start).length_eq
    simp only [List.filter_map, Function.comp_def, List.length_map] at starts
    exact starts.symm.trans formed.one_start
  · rw [← rearranged.pinKind? formed, ← rearranged.pinKind? formed]
    exact formed.linked link (rearranged.links.mem_iff.mpr member)

theorem successor? (rearranged : g.Rearranged h) (uuid : Uuid) (pin : UInt16) :
    g.successor? uuid pin = h.successor? uuid pin := by
  rw [Graph.successor?, rearranged.outputs, Graph.successor?]

theorem feed? (rearranged : g.Rearranged h) (formed : g.WellFormed) (uuid : Uuid) (pin : UInt16) :
    g.feed? uuid pin = h.feed? uuid pin := by
  have first (f : Graph) : f.linkInto? uuid pin = (f.linksInto uuid pin).head? :=
    List.head?_filter.symm
  simp only [Graph.feed?, first, rearranged.inputs, rearranged.kind formed]

theorem logicInDegree (rearranged : g.Rearranged h) (formed : g.WellFormed) (uuid : Uuid) :
    g.logicInDegree uuid = h.logicInDegree uuid := by
  simp only [Graph.logicInDegree, rearranged.pinKind? formed]
  exact (rearranged.links.filter _).length_eq

theorem agrees (rearranged : g.Rearranged h) (formed : g.WellFormed) :
    Agrees True (fun _ => True) g h where
  start := by
    obtain ⟨found, type⟩ := formed.node?_start
    obtain ⟨b, found', uuid, kind⟩ := rearranged.node? formed found
    have type' : b.type = .start := (congrArg NodeKind.type kind).symm.trans type
    rw [uuid, (rearranged.wellFormed formed).eq_start (node?_eq_some found').1 type']
  begins := trivial
  leads _ _ := trivial
  node _ found := by
    obtain ⟨b, found', uuid, kind⟩ := rearranged.node? formed found
    exact ⟨b, found', uuid, kind, fun _ _ => rearranged.successor? _ _,
      fun _ _ => rearranged.feed? formed _ _, fun _ => rearranged.logicInDegree formed _,
      fun _ _ => by rw [rearranged.outputs]⟩

end Rearranged

/-! Without a node -/

/-- A node that is not met, and that no node reads that is. -/
structure Unused (g : Graph) (uuid : Uuid) : Prop where
  unreached : ¬ g.Reaches g.start.uuid uuid
  unread : ∀ node, g.Reaches g.start.uuid node.uuid → g.node? node.uuid = some node →
    ∀ pin ∈ node.type.valueInputs, ∀ link, g.linkInto? node.uuid pin = some link →
      link.fromNode ≠ uuid

/-- Filtering keeps the first match, if it keeps that one. -/
theorem find?_filter_of_first {α : Type} {kept wanted : α → Bool} {items : List α}
    (first : ∀ item, items.find? wanted = some item → kept item) :
    (items.filter kept).find? wanted = items.find? wanted := by
  induction items with
  | nil => rfl
  | cons item rest ih =>
    cases here : wanted item with
    | true =>
      have keep := first item (List.find?_cons_of_pos here)
      rw [List.filter_cons_of_pos keep, List.find?_cons_of_pos here, List.find?_cons_of_pos here]
    | false =>
      have passed : ¬ wanted item = true := by simp [here]
      rw [List.find?_cons_of_neg passed] at first ⊢
      rw [← ih first, List.filter_cons]
      split
      · exact List.find?_cons_of_neg passed
      · rfl

namespace Unused

variable {dead : Uuid} {removed : Node}

theorem node? (edited : g.remove dead = .ok (h, removed)) {uuid : Uuid} (differs : uuid ≠ dead) :
    h.node? uuid = g.node? uuid := by
  obtain ⟨-, -, rfl⟩ := remove_eq_ok edited
  exact find?_eraseP g.nodes differs

theorem successor? (unused : g.Unused dead) (edited : g.remove dead = .ok (h, removed)) {a : Node}
    (reached : g.Reaches g.start.uuid a.uuid) (found : g.node? a.uuid = some a)
    {pin : UInt16} (output : pin ∈ a.type.logicOutputs) :
    g.successor? a.uuid pin = h.successor? a.uuid pin := by
  obtain ⟨-, -, rfl⟩ := remove_eq_ok edited
  rw [successor?_eq, successor?_eq, find?_filter_of_first]
  intro link first
  have next : g.successor? a.uuid pin = some link.toNode := by rw [successor?_eq, first]; rfl
  have leaves := List.find?_some first
  simp only [Bool.and_eq_true, beq_iff_eq] at leaves
  have target : g.Reaches g.start.uuid link.toNode :=
    reached.tail ⟨a, found, List.mem_filterMap.mpr ⟨pin, output, next⟩⟩
  simp only [Bool.and_eq_true, bne_iff_ne]
  constructor
  · rintro rfl
    exact unused.unreached (leaves.1 ▸ reached)
  · rintro rfl
    exact unused.unreached target

theorem feed? (unused : g.Unused dead) (edited : g.remove dead = .ok (h, removed)) {a : Node}
    (reached : g.Reaches g.start.uuid a.uuid) (found : g.node? a.uuid = some a)
    {pin : UInt16} (input : pin ∈ a.type.valueInputs) :
    g.feed? a.uuid pin = h.feed? a.uuid pin := by
  have sources {link : Link} (first : g.linkInto? a.uuid pin = some link) :=
    unused.unread a reached found pin input link first
  have linked : h.linkInto? a.uuid pin = g.linkInto? a.uuid pin := by
    obtain ⟨-, -, rfl⟩ := remove_eq_ok edited
    refine find?_filter_of_first fun link first => ?_
    have arrives := List.find?_some first
    simp only [Bool.and_eq_true, beq_iff_eq] at arrives
    simp only [Bool.and_eq_true, bne_iff_ne]
    exact ⟨sources first, fun same => unused.unreached (same ▸ arrives.1 ▸ reached)⟩
  rw [Graph.feed?, Graph.feed?, linked]
  cases first : g.linkInto? a.uuid pin with
  | none => rfl
  | some link => rw [Option.map_some, Option.map_some, node? edited (sources first)]

/-- What is left tells compilation the same but for the number of links. -/
theorem agrees (unused : g.Unused dead) (formed : g.WellFormed)
    (edited : g.remove dead = .ok (h, removed)) :
    Agrees False (g.Reaches g.start.uuid) g h where
  start := by
    have other : g.start.uuid ≠ dead := fun same => unused.unreached (same ▸ .refl)
    obtain ⟨found, type⟩ := formed.node?_start
    rw [← node? edited other] at found
    rw [(formed.remove edited).eq_start (node?_eq_some found).1 type]
  begins := .refl
  leads reached leads := reached.tail leads
  node {uuid a} reached found := by
    have other : uuid ≠ dead := fun same => unused.unreached (same ▸ reached)
    obtain ⟨-, rfl⟩ := node?_eq_some found
    exact ⟨a, (node? edited other).trans found, rfl, rfl,
      fun _ output => unused.successor? edited reached found output,
      fun _ input => unused.feed? edited reached found input, False.elim, False.elim⟩

end Unused

end NodeScript.Graph
