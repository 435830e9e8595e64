import Mathlib.Data.List.Nodup
import NodeScript.Graph.Basic

/-!
What it means that a graph was accepted. `Graph.ofParts` gives a graph exactly if that graph is
well formed; nothing is promised about the kinds of linked pins, nor about how many links share a
pin.
-/
namespace NodeScript

/-- Where keys are distinct, each is found with its item. -/
theorem find?_of_nodup_keys {κ α : Type} [BEq κ] [LawfulBEq κ] {key : α → κ} {items : List α}
    (distinct : (items.map key).Nodup) {item : α} (member : item ∈ items) :
    (items.find? fun other => key other == key item) = some item := by
  obtain ⟨found, first⟩ := Option.isSome_iff_exists.mp
    (List.find?_isSome (p := fun other => key other == key item) |>.mpr
      ⟨item, member, beq_self_eq_true _⟩)
  have same : key found = key item := by simpa using List.find?_some first
  rw [first, List.inj_on_of_nodup_map distinct (List.mem_of_find?_eq_some first) member same]

namespace Graph

/-- Distinct identifiers, one Start node, and links between pins that exist. -/
structure WellFormed (g : Graph) : Prop where
  distinct : (g.nodes.map (·.uuid)).Nodup
  one_start : (g.nodes.filter fun node => node.type == .start).length = 1
  linked : ∀ link ∈ g.links,
    (g.pinKind? .output link.fromNode link.fromPin).isSome ∧
      (g.pinKind? .input link.toNode link.toPin).isSome

theorem firstRepeated?_eq_none_iff (uuids seen : List Uuid) :
    firstRepeated? seen uuids = none ↔ uuids.Nodup ∧ ∀ uuid ∈ uuids, uuid ∉ seen := by
  induction uuids generalizing seen with
  | nil => simp [firstRepeated?]
  | cons uuid rest ih =>
    by_cases repeated : uuid ∈ seen
    · simp [firstRepeated?, repeated]
    · rw [firstRepeated?, if_neg repeated, ih, List.nodup_cons]
      constructor
      · rintro ⟨distinct, unseen⟩
        refine ⟨⟨fun member => unseen uuid member (by simp), distinct⟩, ?_⟩
        intro other member
        rcases List.mem_cons.mp member with rfl | member
        · exact repeated
        · exact fun found => unseen other member (List.mem_cons_of_mem _ found)
      · rintro ⟨⟨new, distinct⟩, unseen⟩
        refine ⟨distinct, fun other member found => ?_⟩
        rcases List.mem_cons.mp found with rfl | found
        · exact new member
        · exact unseen other (List.mem_cons_of_mem _ member) found

theorem checkPin_isOk_iff (g : Graph) (side : Side) (uuid : Uuid) (pin : UInt16) :
    (∃ kind, g.checkPin side uuid pin = .ok kind) ↔ (g.pinKind? side uuid pin).isSome := by
  unfold checkPin pinKind?
  cases g.node? uuid with
  | none => simp
  | some node => cases found : node.type.pin? side pin <;> simp [found]

theorem checkLinks_eq_ok_iff (g : Graph) (links : List Link) :
    g.checkLinks links = .ok () ↔ ∀ link ∈ links,
      (g.pinKind? .output link.fromNode link.fromPin).isSome ∧
        (g.pinKind? .input link.toNode link.toPin).isSome := by
  induction links with
  | nil => simp [checkLinks]
  | cons link rest ih =>
    have source := g.checkPin_isOk_iff .output link.fromNode link.fromPin
    have target := g.checkPin_isOk_iff .input link.toNode link.toPin
    simp only [checkLinks, List.forall_mem_cons, ← source, ← target, ← ih]
    cases g.checkPin .output link.fromNode link.fromPin with
    | error cause => simp [bind, Except.bind]
    | ok kind =>
      cases g.checkPin .input link.toNode link.toPin with
      | error cause => simp [bind, Except.bind]
      | ok other => simp [bind, Except.bind]

theorem ofParts_eq_ok_iff (nodes : List Node) (links : List Link) (g : Graph) :
    ofParts nodes links = .ok g ↔ g = ⟨nodes, links⟩ ∧ g.WellFormed := by
  have distinct := firstRepeated?_eq_none_iff (nodes.map (·.uuid)) []
  have linked := checkLinks_eq_ok_iff ⟨nodes, links⟩ links
  unfold ofParts
  cases repeated : firstRepeated? [] (nodes.map (·.uuid)) with
  | some uuid =>
    rw [repeated] at distinct
    constructor
    · intro accepted
      cases accepted
    · rintro ⟨rfl, formed⟩
      have := formed.distinct
      simp_all
  | none =>
    by_cases starts : (nodes.filter fun node => node.type == .start).length = 1
    · cases checked : checkLinks ⟨nodes, links⟩ links with
      | error cause =>
        rw [checked] at linked
        constructor
        · intro accepted
          simp [starts, checked, bind, Except.bind] at accepted
        · rintro ⟨rfl, formed⟩
          exact absurd (linked.mpr formed.linked) (by simp)
      | ok done =>
        have formed : WellFormed ⟨nodes, links⟩ :=
          ⟨(distinct.mp repeated).1, starts, linked.mp checked⟩
        constructor
        · intro accepted
          simp only [starts, checked, bind, Except.bind, pure, Except.pure, ne_eq,
            not_true_eq_false, if_false, Except.ok.injEq] at accepted
          exact ⟨accepted.symm, accepted ▸ formed⟩
        · rintro ⟨rfl, -⟩
          simp [starts, checked, bind, Except.bind, pure, Except.pure]
    · constructor
      · intro accepted
        simp [starts, bind, Except.bind, throw, throwThe, MonadExceptOf.throw] at accepted
      · rintro ⟨rfl, formed⟩
        exact absurd formed.one_start starts

variable {g : Graph}

theorem wellFormed_of_ofParts {nodes : List Node} {links : List Link}
    (accepted : ofParts nodes links = .ok g) : g.WellFormed :=
  ((ofParts_eq_ok_iff nodes links g).mp accepted).2

theorem node?_eq_some {uuid : Uuid} {node : Node} (found : g.node? uuid = some node) :
    node ∈ g.nodes ∧ node.uuid = uuid :=
  ⟨List.mem_of_find?_eq_some found, by simpa using List.find?_some found⟩

theorem WellFormed.node?_of_mem (formed : g.WellFormed) {node : Node} (member : node ∈ g.nodes) :
    g.node? node.uuid = some node :=
  find?_of_nodup_keys formed.distinct member

/-- The link behind a successor. -/
theorem successor?_eq_some {uuid target : Uuid} {pin : UInt16}
    (found : g.successor? uuid pin = some target) :
    ∃ link ∈ g.links, link.fromNode = uuid ∧ link.fromPin = pin ∧ link.toNode = target := by
  simp only [successor?, linksFrom, List.head?_filter, Option.map_eq_some_iff] at found
  obtain ⟨link, first, rfl⟩ := found
  have leaves := List.find?_some first
  simp only [Bool.and_eq_true, beq_iff_eq] at leaves
  exact ⟨link, List.mem_of_find?_eq_some first, leaves.1, leaves.2, rfl⟩

/-- Where a link arrives there is a node with an input pin. -/
theorem WellFormed.target (formed : g.WellFormed) {link : Link} (member : link ∈ g.links) :
    ∃ node, g.node? link.toNode = some node ∧ node.type.inputs ≠ [] := by
  have present := (formed.linked link member).2
  simp only [pinKind?, Option.isSome_bind, Option.any_eq_true] at present
  obtain ⟨node, found, pin⟩ := present
  refine ⟨node, found, fun none => ?_⟩
  simp [NodeType.pin?, NodeType.pins, none] at pin

theorem WellFormed.source (formed : g.WellFormed) {link : Link} (member : link ∈ g.links) :
    (g.node? link.fromNode).isSome := by
  have present := (formed.linked link member).1
  cases found : g.node? link.fromNode with
  | none => simp [pinKind?, found] at present
  | some node => rfl

/-- What a Logic output leads to is in the graph and has an input pin. -/
theorem WellFormed.successor (formed : g.WellFormed) {uuid target : Uuid} {pin : UInt16}
    (found : g.successor? uuid pin = some target) :
    ∃ node, g.node? target = some node ∧ node.type.inputs ≠ [] := by
  obtain ⟨link, member, -, -, rfl⟩ := successor?_eq_some found
  exact formed.target member

theorem WellFormed.node?_start (formed : g.WellFormed) :
    g.node? g.start.uuid = some g.start ∧ g.start.type = .start := by
  have one := formed.one_start
  cases found : g.nodes.find? fun node => node.type == .start with
  | none =>
    have none := List.filter_eq_nil_iff.mpr (List.find?_eq_none.mp found)
    rw [none] at one
    cases one
  | some node =>
    have start : g.start = node := by rw [Graph.start, found]; rfl
    have type := List.find?_some found
    rw [start]
    exact ⟨formed.node?_of_mem (List.mem_of_find?_eq_some found), by simpa using type⟩

/-- Nothing is linked to the Start node. -/
theorem WellFormed.ne_start (formed : g.WellFormed) {uuid : Uuid} {node : Node}
    (found : g.node? uuid = some node) (entered : node.type.inputs ≠ []) : uuid ≠ g.start.uuid := by
  rintro rfl
  obtain ⟨start, type⟩ := formed.node?_start
  obtain rfl := Option.some.inj (start.symm.trans found)
  rw [type] at entered
  exact entered rfl

/-- A graph with every kind of node that continues: a loop around a pause and a call, whose last
result is then compared. -/
def sample : Graph where
  nodes :=
    [⟨1, .start, .origin⟩, ⟨2, .loop 2, .origin⟩, ⟨3, .wait .zero, .origin⟩,
      ⟨4, .function "f" 5, .origin⟩, ⟨5, .value 3, .origin⟩, ⟨6, .compare .less, .origin⟩,
      ⟨7, .deleteObject 0, .origin⟩, ⟨8, .sendEvent 0 1 2, .origin⟩]
  links :=
    [⟨1, 0, 2, 0⟩, ⟨2, 0, 3, 0⟩, ⟨3, 0, 4, 0⟩, ⟨4, 0, 2, 0⟩, ⟨2, 1, 6, 0⟩, ⟨4, 1, 6, 1⟩,
      ⟨5, 0, 6, 2⟩, ⟨6, 0, 7, 0⟩, ⟨6, 1, 8, 0⟩, ⟨1, 2, 8, 0⟩]

theorem sample_accepted : ofParts sample.nodes sample.links = .ok sample := by rfl

end Graph

end NodeScript
