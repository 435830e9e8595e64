import Mathlib.Data.List.Perm.Subperm
import NodeScript.Graph.Document
import NodeScript.Graph.Edit
import NodeScript.Proofs.Graph.Accepted

/-!
Every graph that can be made is well formed: a new one, one that is read from a document, and
whatever edits make of these. Links stay valid because an edit either keeps the type of every node
that a link touches, or drops the link.
-/
namespace NodeScript.Graph

variable {g g' : Graph}

theorem node?_eq_none {uuid : Uuid} : g.node? uuid = none ↔ uuid ∉ g.nodes.map (·.uuid) := by
  simp [node?, List.find?_eq_none]

theorem checkPin_eq_ok {side : Side} {uuid : Uuid} {pin : UInt16} {kind : PinKind}
    (checked : g.checkPin side uuid pin = .ok kind) : g.pinKind? side uuid pin = some kind := by
  unfold checkPin at checked
  cases found : g.node? uuid with
  | none => simp [found] at checked
  | some node =>
    cases pin? : node.type.pin? side pin with
    | none => simp [found, pin?] at checked
    | some pin =>
      simp only [found, pin?, Except.ok.injEq] at checked
      simp [pinKind?, found, pin?, checked]

/-- Among more candidates than excluded identifiers one is free. -/
theorem node?_freshUuid (room : g.nodes.length + 2 ≤ UInt64.size) (hint : Uuid) :
    g.node? (g.freshUuid hint) = none := by
  unfold freshUuid
  cases found : (((List.range (g.nodes.length + 2)).map fun offset =>
      hint + offset.toUInt64).find? fun uuid => uuid != 0 && (g.node? uuid).isNone) with
  | some uuid =>
    have free := List.find?_some found
    simp only [Bool.and_eq_true, Option.isNone_iff_eq_none] at free
    exact free.2
  | none =>
    -- If none were free, all candidates would be among fewer excluded identifiers.
    exfalso
    have distinct : ((List.range (g.nodes.length + 2)).map fun offset =>
        hint + offset.toUInt64).Nodup := by
      refine List.nodup_range.map_on fun a first b second same => ?_
      rw [List.mem_range] at first second
      have same' := congrArg UInt64.toNat (UInt64.add_right_inj hint |>.mp same)
      rwa [UInt64.toNat_ofNat_of_lt' (by omega), UInt64.toNat_ofNat_of_lt' (by omega)] at same'
    have excluded : ((List.range (g.nodes.length + 2)).map fun offset =>
        hint + offset.toUInt64) ⊆ 0 :: g.nodes.map (·.uuid) := by
      intro uuid member
      have taken := List.find?_eq_none.mp found uuid member
      by_cases zero : uuid = 0
      · exact zero ▸ List.mem_cons_self ..
      · refine List.mem_cons_of_mem _ (Classical.byContradiction fun new => taken ?_)
        simp [zero, node?_eq_none.mpr new]
    have few := (distinct.subperm excluded).length_le
    simp at few

/-- The node of an identifier, if there is one, stays with its type. -/
def Keeps (g g' : Graph) (uuid : Uuid) : Prop :=
  ∀ node, g.node? uuid = some node → ∃ node', g'.node? uuid = some node' ∧ node'.type = node.type

theorem Keeps.pinKind? {uuid : Uuid} (kept : Keeps g g' uuid) {side : Side} {pin : UInt16}
    (present : (g.pinKind? side uuid pin).isSome) : (g'.pinKind? side uuid pin).isSome := by
  cases found : g.node? uuid with
  | none => simp [Graph.pinKind?, found] at present
  | some node =>
    obtain ⟨node', found', type⟩ := kept node found
    rw [Graph.pinKind?, found, Option.bind_some] at present
    rwa [Graph.pinKind?, found', Option.bind_some, type]

/-- A link stays valid where both of its nodes keep their types. -/
theorem WellFormed.linked_of_keeps (formed : g.WellFormed) {link : Link} (member : link ∈ g.links)
    (source : Keeps g g' link.fromNode) (target : Keeps g g' link.toNode) :
    (g'.pinKind? .output link.fromNode link.fromPin).isSome ∧
      (g'.pinKind? .input link.toNode link.toPin).isSome :=
  ⟨source.pinKind? (formed.linked link member).1, target.pinKind? (formed.linked link member).2⟩

theorem wellFormed_single (start : Uuid) : (single start).WellFormed where
  distinct := List.nodup_singleton _
  one_start := rfl
  linked _ member := absurd member List.not_mem_nil

theorem keeps_add (g : Graph) (kind : NodeKind) (position : Position) (hint other : Uuid) :
    Keeps g (g.add kind position hint).1 other := by
  intro node found
  refine ⟨node, ?_, rfl⟩
  unfold Graph.add
  split
  · exact found
  · unfold node? at found ⊢
    rw [List.find?_append, found, Option.some_or]

theorem WellFormed.add (formed : g.WellFormed) (kind : NodeKind) (position : Position)
    {hint : Uuid} (free : g.node? (g.freshUuid hint) = none) :
    (g.add kind position hint).1.WellFormed := by
  have kept := keeps_add g kind position hint
  unfold Graph.add at kept ⊢
  split
  · exact formed
  · next other =>
    refine ⟨?_, ?_, fun link member => ?_⟩
    · rw [List.map_append, List.nodup_append]
      refine ⟨formed.distinct, List.nodup_singleton _, fun uuid present new single same => ?_⟩
      obtain rfl := List.mem_singleton.mp single
      rw [same] at present
      exact node?_eq_none.mp free present
    · have none : ([⟨g.freshUuid hint, kind, position⟩].filter fun node : Node =>
          node.type == .start) = [] := by simp [Node.type, other]
      rw [List.filter_append, none, List.append_nil]
      exact formed.one_start
    · simp only [other, if_false] at kept
      exact formed.linked_of_keeps member (kept _) (kept _)

/-- What a change in place makes of each node. -/
def changed (uuid : Uuid) (change : Node → Node) (node : Node) : Node :=
  if node.uuid == uuid then change node else node

section

variable {uuid : Uuid} {change : Node → Node}

theorem uuid_changed (identifier : ∀ node, (change node).uuid = node.uuid) (node : Node) :
    (changed uuid change node).uuid = node.uuid := by
  unfold changed
  split
  · exact identifier node
  · rfl

/-- As identifiers are distinct, the only node that changes is the one that is found. -/
theorem WellFormed.type_changed (formed : g.WellFormed)
    (type : ∀ node, g.node? uuid = some node → (change node).type = node.type) {node : Node}
    (member : node ∈ g.nodes) : (changed uuid change node).type = node.type := by
  unfold changed
  split
  next here => exact type node (eq_of_beq here ▸ formed.node?_of_mem member)
  next => rfl

theorem node?_modify (identifier : ∀ node, (change node).uuid = node.uuid) (other : Uuid) :
    (g.modify uuid change).node? other = (g.node? other).map (changed uuid change) := by
  have nodes : (g.modify uuid change).nodes = g.nodes.map (changed uuid change) := rfl
  simp only [node?, nodes, List.find?_map, Function.comp_def, uuid_changed identifier]

theorem WellFormed.keeps_modify (formed : g.WellFormed)
    (identifier : ∀ node, (change node).uuid = node.uuid)
    (type : ∀ node, g.node? uuid = some node → (change node).type = node.type) (other : Uuid) :
    Keeps g (g.modify uuid change) other := fun node present =>
  ⟨changed uuid change node, by rw [node?_modify identifier, present, Option.map_some],
    formed.type_changed type (node?_eq_some present).1⟩

/-- A change in place keeps identifiers and types. -/
theorem WellFormed.modify (formed : g.WellFormed)
    (identifier : ∀ node, (change node).uuid = node.uuid)
    (type : ∀ node, g.node? uuid = some node → (change node).type = node.type) :
    (g.modify uuid change).WellFormed := by
  have nodes : (g.modify uuid change).nodes = g.nodes.map (changed uuid change) := rfl
  have kept := formed.keeps_modify identifier type
  refine ⟨?_, ?_, fun link member => ?_⟩
  · rw [nodes, List.map_map]
    exact (List.map_congr_left fun node _ => uuid_changed identifier node) ▸ formed.distinct
  · rw [nodes, List.filter_map, List.length_map, ← formed.one_start]
    refine congrArg _ (List.filter_congr fun node member => ?_)
    rw [Function.comp_apply, formed.type_changed type member]
  · exact formed.linked_of_keeps member (kept _) (kept _)

end

/-! What an edit that is made does -/

theorem setKind_eq_ok {uuid : Uuid} {kind : NodeKind} (edited : g.setKind uuid kind = .ok g') :
    ∃ node, g.node? uuid = some node ∧ node.type = kind.type ∧
      g' = g.modify uuid fun node => ⟨node.uuid, kind, node.position⟩ := by
  unfold Graph.setKind at edited
  cases found : g.node? uuid with
  | none => simp [found] at edited
  | some node =>
    by_cases same : node.type = kind.type
    · simp only [found, same, if_true, Except.ok.injEq] at edited
      exact ⟨node, rfl, same, edited.symm⟩
    · simp [found, same] at edited

theorem setPosition_eq_ok {uuid : Uuid} {position : Position}
    (edited : g.setPosition uuid position = .ok g') :
    g' = g.modify uuid fun node => ⟨node.uuid, node.kind, position⟩ := by
  unfold Graph.setPosition at edited
  cases found : g.node? uuid with
  | none => simp [found] at edited
  | some node =>
    simp only [found, Except.ok.injEq] at edited
    exact edited.symm

theorem remove_eq_ok {uuid : Uuid} {node : Node} (edited : g.remove uuid = .ok (g', node)) :
    g.node? uuid = some node ∧ node.type ≠ .start ∧
      g' = ⟨g.nodes.eraseP fun other => other.uuid == uuid,
        g.links.filter fun link => link.fromNode != uuid && link.toNode != uuid⟩ := by
  unfold Graph.remove at edited
  cases found : g.node? uuid with
  | none => simp [found] at edited
  | some removed =>
    by_cases start : removed.type = .start
    · simp [found, start] at edited
    · simp only [found, start, if_false, Except.ok.injEq, Prod.mk.injEq] at edited
      obtain ⟨rfl, rfl⟩ := edited
      exact ⟨rfl, start, rfl⟩

theorem link_eq_ok {new : Link} (edited : g.link new = .ok g') :
    ∃ kind, g.pinKind? .output new.fromNode new.fromPin = some kind ∧
      g.pinKind? .input new.toNode new.toPin = some kind ∧
      g' = ⟨g.nodes, (g.links.filter fun old => !replaces kind new old) ++ [new]⟩ := by
  unfold Graph.link at edited
  cases left : g.checkPin .output new.fromNode new.fromPin with
  | error cause => simp [left, bind, Except.bind] at edited
  | ok kind =>
    cases arrives : g.checkPin .input new.toNode new.toPin with
    | error cause => simp [left, arrives, bind, Except.bind] at edited
    | ok other =>
      by_cases same : kind = other
      · simp only [left, arrives, bind, Except.bind, same, if_true, pure, Except.pure,
          Except.ok.injEq] at edited
        exact ⟨other, checkPin_eq_ok (same ▸ left), checkPin_eq_ok arrives, edited.symm⟩
      · simp [left, arrives, bind, Except.bind, same, throw, throwThe, MonadExceptOf.throw]
          at edited

theorem WellFormed.setKind (formed : g.WellFormed) {uuid : Uuid} {kind : NodeKind}
    (edited : g.setKind uuid kind = .ok g') : g'.WellFormed := by
  obtain ⟨node, found, same, rfl⟩ := setKind_eq_ok edited
  refine formed.modify (fun _ => rfl) fun other found' => ?_
  rw [Option.some.inj (found'.symm.trans found)]
  exact same.symm

theorem WellFormed.setPosition (formed : g.WellFormed) {uuid : Uuid} {position : Position}
    (edited : g.setPosition uuid position = .ok g') : g'.WellFormed := by
  obtain rfl := setPosition_eq_ok edited
  exact formed.modify (fun _ => rfl) fun _ _ => rfl

/-- Erasing a node leaves all others. -/
theorem find?_eraseP (nodes : List Node) {uuid other : Uuid} (differs : other ≠ uuid) :
    (nodes.eraseP fun node => node.uuid == uuid).find? (fun node => node.uuid == other) =
      nodes.find? fun node => node.uuid == other := by
  induction nodes with
  | nil => rfl
  | cons node nodes ih =>
    by_cases here : node.uuid = uuid
    · have passed : (node.uuid == other) = false :=
        beq_eq_false_iff_ne.mpr fun equal => differs (equal.symm.trans here)
      rw [List.find?_cons, passed]
      simp [here]
    · simp [List.find?_cons, here, ih]

theorem keeps_remove {uuid : Uuid} {node : Node} (edited : g.remove uuid = .ok (g', node))
    {other : Uuid} (differs : other ≠ uuid) : Keeps g g' other := by
  obtain ⟨-, -, rfl⟩ := remove_eq_ok edited
  exact fun node present => ⟨node, (find?_eraseP g.nodes differs).trans present, rfl⟩

theorem WellFormed.remove (formed : g.WellFormed) {uuid : Uuid} {node : Node}
    (edited : g.remove uuid = .ok (g', node)) : g'.WellFormed := by
  have kept {other : Uuid} (differs : other ≠ uuid) := keeps_remove edited differs
  obtain ⟨found, start, rfl⟩ := remove_eq_ok edited
  refine ⟨formed.distinct.sublist (List.eraseP_sublist.map _), ?_, fun link member => ?_⟩
  · -- The erased node is the one that was found, and no Start node.
    obtain ⟨member, same⟩ := node?_eq_some found
    obtain ⟨first, before, after, -, here, nodes, erased⟩ := List.exists_of_eraseP
      (p := fun other : Node => other.uuid == uuid) member (beq_iff_eq.mpr same)
    have present : first ∈ g.nodes := nodes ▸ by simp
    have found' := formed.node?_of_mem present
    rw [eq_of_beq here, found] at found'
    obtain rfl := Option.some.inj found'
    have one := formed.one_start
    rw [nodes, List.filter_append, List.filter_cons_of_neg (by simpa using start)] at one
    rw [erased, List.filter_append]
    exact one
  · obtain ⟨old, apart⟩ := List.mem_filter.mp member
    simp only [Bool.and_eq_true, bne_iff_ne] at apart
    exact formed.linked_of_keeps old (kept apart.1) (kept apart.2)

theorem WellFormed.link (formed : g.WellFormed) {new : Link} (edited : g.link new = .ok g') :
    g'.WellFormed := by
  obtain ⟨kind, source, target, rfl⟩ := link_eq_ok edited
  refine ⟨formed.distinct, formed.one_start, fun link member => ?_⟩
  rcases List.mem_append.mp member with old | made
  · exact formed.linked link (List.mem_of_mem_filter old)
  · obtain rfl := List.mem_singleton.mp made
    exact ⟨Option.isSome_iff_exists.mpr ⟨kind, source⟩,
      Option.isSome_iff_exists.mpr ⟨kind, target⟩⟩

theorem WellFormed.unlink (formed : g.WellFormed) (link : Link) :
    (g.unlink link).1.WellFormed where
  distinct := formed.distinct
  one_start := formed.one_start
  linked other member := formed.linked other (List.mem_of_mem_filter member)

/-- The graphs that can be made: a new one, what is read from a document, and what edits make of
them. A new node gets an identifier that is free, as there is one in every graph with fewer nodes
than there are identifiers. -/
inductive Obtainable : Graph → Prop
  | single (start : Uuid) : Obtainable (single start)
  | ofJson {g : Graph} (text : String) (read : Graph.ofJson text = .ok g) : Obtainable g
  | add {g : Graph} (kind : NodeKind) (position : Position) (hint : Uuid) (made : Obtainable g)
      (free : g.node? (g.freshUuid hint) = none) : Obtainable (g.add kind position hint).1
  | setKind {g g' : Graph} (uuid : Uuid) (kind : NodeKind) (made : Obtainable g)
      (edited : g.setKind uuid kind = .ok g') : Obtainable g'
  | setPosition {g g' : Graph} (uuid : Uuid) (position : Position) (made : Obtainable g)
      (edited : g.setPosition uuid position = .ok g') : Obtainable g'
  | remove {g g' : Graph} (uuid : Uuid) (node : Node) (made : Obtainable g)
      (edited : g.remove uuid = .ok (g', node)) : Obtainable g'
  | link {g g' : Graph} (new : Link) (made : Obtainable g) (edited : g.link new = .ok g') :
      Obtainable g'
  | unlink {g : Graph} (link : Link) (made : Obtainable g) : Obtainable (g.unlink link).1

theorem wellFormed_ofJson {text : String} (read : ofJson text = .ok g) : g.WellFormed := by
  unfold ofJson at read
  cases parts : (Json.Tree.parse? text).bind partsOfTree? with
  | none => simp [parts] at read
  | some parts' =>
    obtain ⟨entries, links⟩ := parts'
    cases nodes : entries.mapM NodeRecord.toNode with
    | error cause => simp [parts, nodes, bind, Except.bind] at read
    | ok found =>
      simp only [parts, nodes, bind, Except.bind] at read
      exact ((ofParts_eq_ok_iff ..).mp read).2

theorem Obtainable.wellFormed (made : g.Obtainable) : g.WellFormed := by
  induction made with
  | single start => exact wellFormed_single start
  | ofJson text read => exact wellFormed_ofJson read
  | add kind position hint made free formed => exact formed.add kind position free
  | setKind uuid kind made edited formed => exact formed.setKind edited
  | setPosition uuid position made edited formed => exact formed.setPosition edited
  | remove uuid node made edited formed => exact formed.remove edited
  | link new made edited formed => exact formed.link edited
  | unlink link made formed => exact formed.unlink link

end NodeScript.Graph
