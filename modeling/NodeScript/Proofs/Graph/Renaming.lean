import Mathlib.Data.List.Forall2
import NodeScript.Checksum
import NodeScript.Proofs.Graph.Meaning

/-!
Graphs that differ in how functions are called only, under names with equal hashes. Such graphs
answer every question alike that compilation asks of them, but for the titles of nodes.
-/
namespace NodeScript

/-- The kinds differ at most in the name of a function, which has the same hash. -/
inductive NodeKind.Renamed : NodeKind → NodeKind → Prop
  | same (kind : NodeKind) : Renamed kind kind
  | function {name other : String} (argument : UInt32) (hash : crc32 name = crc32 other) :
      Renamed (.function name argument) (.function other argument)

theorem NodeKind.Renamed.type {a b : NodeKind} (renamed : a.Renamed b) : a.type = b.type := by
  cases renamed <;> rfl

/-- One node under the same identifier, wherever it lies. -/
structure Node.Renamed (a b : Node) : Prop where
  uuid : a.uuid = b.uuid
  kind : a.kind.Renamed b.kind

theorem Node.Renamed.type {a b : Node} (renamed : a.Renamed b) : a.type = b.type :=
  renamed.kind.type

namespace Graph

/-- Nodes correspond in order, and links are the same. -/
structure Renamed (g h : Graph) : Prop where
  nodes : List.Forall₂ Node.Renamed g.nodes h.nodes
  links : g.links = h.links

namespace Renamed

variable {g h : Graph}

/-- A search that does not look at names finds corresponding nodes. -/
theorem find? (renamed : g.Renamed h) (p : Node → Bool)
    (blind : ∀ {a b : Node}, a.Renamed b → p a = p b) :
    g.nodes.find? p = none ∧ h.nodes.find? p = none ∨
      ∃ a b, g.nodes.find? p = some a ∧ h.nodes.find? p = some b ∧ a.Renamed b := by
  obtain ⟨nodes, -⟩ := renamed
  generalize g.nodes = as at nodes
  generalize h.nodes = bs at nodes
  induction nodes with
  | nil => exact .inl ⟨rfl, rfl⟩
  | @cons a b as bs first _ ih =>
    rw [List.find?_cons, List.find?_cons, ← blind first]
    cases p a with
    | true => exact .inr ⟨a, b, rfl, rfl, first⟩
    | false => exact ih

theorem node? (renamed : g.Renamed h) (uuid : Uuid) :
    g.node? uuid = none ∧ h.node? uuid = none ∨
      ∃ a b, g.node? uuid = some a ∧ h.node? uuid = some b ∧ a.Renamed b :=
  renamed.find? _ fun same => by rw [same.uuid]

theorem counterpart (renamed : g.Renamed h) {uuid : Uuid} {node : Node}
    (found : g.node? uuid = some node) : ∃ other, h.node? uuid = some other ∧ node.Renamed other := by
  rcases renamed.node? uuid with ⟨missing, -⟩ | ⟨a, b, found', other, same⟩
  · cases missing.symm.trans found
  · obtain rfl := Option.some.inj (found'.symm.trans found)
    exact ⟨b, other, same⟩

theorem start_uuid (renamed : g.Renamed h) : g.start.uuid = h.start.uuid := by
  have found := renamed.find? (fun node => node.type == .start) fun same => by rw [same.type]
  rcases found with ⟨missing, missing'⟩ | ⟨a, b, found, found', same⟩
  · rw [start, missing, start, missing']
  · rw [start, found, start, found']
    exact same.uuid

theorem successor? (renamed : g.Renamed h) (uuid : Uuid) (pin : UInt16) :
    g.successor? uuid pin = h.successor? uuid pin := by
  simp only [Graph.successor?, linksFrom, renamed.links]

theorem pinKind? (renamed : g.Renamed h) (side : Side) (uuid : Uuid) (pin : UInt16) :
    g.pinKind? side uuid pin = h.pinKind? side uuid pin := by
  rcases renamed.node? uuid with ⟨missing, missing'⟩ | ⟨a, b, found, found', same⟩
  · rw [Graph.pinKind?, missing, Graph.pinKind?, missing']
  · rw [Graph.pinKind?, found, Graph.pinKind?, found', Option.bind_some, Option.bind_some,
      same.type]

theorem logicInDegree (renamed : g.Renamed h) (uuid : Uuid) :
    g.logicInDegree uuid = h.logicInDegree uuid := by
  simp only [Graph.logicInDegree, renamed.links, renamed.pinKind?]

/-- Value inputs read numbers and results, not names. -/
theorem input (renamed : g.Renamed h) (uuid : Uuid) (pin : UInt16) :
    g.input uuid pin = h.input uuid pin := by
  have linked : g.linkInto? uuid pin = h.linkInto? uuid pin := by
    rw [linkInto?, renamed.links, linkInto?]
  unfold Graph.input
  rw [linked]
  cases h.linkInto? uuid pin with
  | none => rfl
  | some link =>
    dsimp only
    rcases renamed.node? link.fromNode with ⟨missing, missing'⟩ | ⟨a, b, found, found', same⟩
    · rw [missing, missing']
    · have kinds := same.kind
      rw [found, found', Option.map_some, Option.map_some]
      generalize a.kind = kind at kinds
      generalize b.kind = kind' at kinds
      cases kinds <;> rfl

end Renamed

end Graph

end NodeScript
