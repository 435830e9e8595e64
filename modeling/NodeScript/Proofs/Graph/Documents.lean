import NodeScript.Proofs.Graph.Edits
import NodeScript.Proofs.Json.Values

/-!
Documents are read back. What is written for a graph is read as that graph, node by node and link
by link, as long as every coordinate and every time is a finite number that its text is read as. A
number that is not finite is written as `null`, and then the document is refused.
-/
namespace NodeScript

/-- Whether an error says that a text is no document: that it is not JSON of the right shape, or
that the properties of a node are not. -/
def GraphError.isJson : GraphError → Bool
  | .malformed | .malformedNode .. => true
  | _ => false

/-- The floating-point numbers among the properties, each with the text that is written for it. -/
def NodeKind.numerals : NodeKind → List (List Char × Binary32)
  | .wait time => [(Json.floatText Json.doubleStyle (time.convert .double), time)]
  | _ => []

/-- The floating-point numbers of a node, each with the text that is written for it. -/
def Node.numerals (node : Node) : List (List Char × Binary32) :=
  (Json.floatText Json.singleStyle node.position.x, node.position.x) ::
    (Json.floatText Json.singleStyle node.position.y, node.position.y) :: node.kind.numerals

namespace Graph

/-- Every coordinate and every time is a finite number. -/
def Finite (g : Graph) : Prop := ∀ node ∈ g.nodes, ∀ n ∈ node.numerals, n.2.isFinite = true

/-- The text of every finite coordinate and time is read as that number. -/
def ReadsBack (g : Graph) : Prop :=
  ∀ node ∈ g.nodes, ∀ n ∈ node.numerals, n.2.isFinite = true → Json.ReadsAs n.1 n.2

instance (g : Graph) : Decidable g.Finite := List.decidableBAll _ _

instance (g : Graph) : Decidable g.ReadsBack := List.decidableBAll _ _

end Graph

open Json (ReadsAs Tree)

/-! ### Properties -/

namespace NodeKind

/-- What is read of the properties that are written for a node. -/
def written? (kind : NodeKind) : Option (List (String × Json)) :=
  kind.toMembers.mapM fun (member : String × Json) =>
    (member.2.tree.value? 3).map fun value => (member.1, value)

/-- Without a time among them, properties are read as the values that are written. -/
theorem written?_eq {kind : NodeKind} (exact : kind.numerals = []) :
    kind.written? = some kind.toMembers := by
  have word16 (n : UInt16) := Json.value?_int 3 (n.toNat_lt_size.trans (by decide))
  have word32 (n : UInt32) := Json.value?_int 3 (n.toNat_lt_size.trans (by decide))
  have each : ∀ member ∈ kind.toMembers, member.2.tree.value? 3 = some member.2 := by
    cases kind with
    | start => exact fun _ member => absurd member List.not_mem_nil
    | wait time => cases exact
    | deleteObject object => simpa [toMembers] using word16 object
    | sendEvent object eventType eventValue =>
      simpa [toMembers] using ⟨word16 eventType, word32 eventValue, word16 object⟩
    | compare op =>
      have code : op.code < Json.Literal.wordBound := by cases op <;> decide
      simpa [toMembers] using Json.value?_int 3 code
    | value number => simpa [toMembers] using word16 number
    | loop count => simpa [toMembers] using word32 count
    | function name argument =>
      simpa [toMembers] using ⟨word32 argument, Json.value?_string 3 name⟩
  refine (mapM_eq_pure id fun member present => ?_).trans (congrArg some (List.map_id _))
  rw [each member present]
  rfl

theorem wordProperty_eq {bound n : Nat} (members : List (String × Json)) (key : String)
    (found : Json.lastMember? key members = some (.int n)) (below : n < bound) :
    wordProperty bound members key = .ok n := by
  have fits : (0 : Int) ≤ n ∧ (n : Int) < bound := by omega
  simp [wordProperty, property, found, Json.natBelow?, below]

theorem ofMembers_toMembers {kind : NodeKind} (exact : kind.numerals = []) :
    ofMembers kind.type kind.toMembers = .ok kind := by
  cases kind with
  | start => rfl
  | wait time => cases exact
  | deleteObject object =>
    have object' := wordProperty_eq (toMembers (.deleteObject object)) "objectId" rfl
      object.toNat_lt_size
    rw [type, ofMembers, object']
    simp [bind, Except.bind, pure, Except.pure]
  | sendEvent object eventType eventValue =>
    let members := toMembers (.sendEvent object eventType eventValue)
    have object' := wordProperty_eq members "objectId" rfl object.toNat_lt_size
    have eventType' := wordProperty_eq members "eventType" rfl eventType.toNat_lt_size
    have eventValue' := wordProperty_eq members "eventValue" rfl eventValue.toNat_lt_size
    rw [type, ofMembers, object', eventType', eventValue']
    simp [bind, Except.bind, pure, Except.pure]
  | compare op =>
    have code : op.code < UInt8.size := by cases op <;> decide
    have code' := wordProperty_eq (toMembers (.compare op)) "compType" rfl code
    rw [type, ofMembers, code']
    simp [CompareOp.ofCode?_code, bind, Except.bind, pure, Except.pure]
  | value number =>
    have number' := wordProperty_eq (toMembers (.value number)) "value" rfl number.toNat_lt_size
    rw [type, ofMembers, number']
    simp [bind, Except.bind, pure, Except.pure]
  | loop count =>
    have count' := wordProperty_eq (toMembers (.loop count)) "count" rfl count.toNat_lt_size
    rw [type, ofMembers, count']
    simp [bind, Except.bind, pure, Except.pure]
  | function name argument =>
    have name' : property (toMembers (.function name argument)) "funcName" "" Json.string? =
      .ok name := rfl
    have argument' := wordProperty_eq (toMembers (.function name argument)) "arg0" rfl
      argument.toNat_lt_size
    rw [type, ofMembers, name', argument']
    simp [bind, Except.bind, pure, Except.pure]

/-- The properties of a node are read back. -/
theorem ofMembers_written {kind : NodeKind} (reads : ∀ n ∈ kind.numerals, ReadsAs n.1 n.2) :
    ∃ members, kind.written? = some members ∧ ofMembers kind.type members = .ok kind := by
  by_cases exact : kind.numerals = []
  · exact ⟨kind.toMembers, written?_eq exact, ofMembers_toMembers exact⟩
  · cases kind with
    | wait time =>
      obtain ⟨value, read, number⟩ := (reads _ (List.mem_singleton_self _)).value? 3
      refine ⟨[("time", value)], ?_, ?_⟩
      · simp [written?, toMembers, Json.tree, read]
      · simp [ofMembers, type, property, Json.lastMember?, number, bind, Except.bind, pure,
          Except.pure]
    | _ => exact absurd rfl exact

/-- A time that is not finite is not read. -/
theorem isFinite_of_accepted {kind read : NodeKind} {members : List (String × Json)}
    (written : kind.written? = some members) (accepted : ofMembers kind.type members = .ok read) :
    ∀ n ∈ kind.numerals, n.2.isFinite = true := by
  cases kind with
  | wait time =>
    refine List.forall_mem_singleton.mpr ?_
    by_contra infinite
    have wide : (time.convert .double).isFinite = false := by
      simp only [Binary.isFinite, decide_eq_true_eq, Nat.not_lt] at infinite
      simp [Binary.isFinite, Binary.convert, Format.convert, infinite]
    have lost : members = [("time", .null)] := by
      simpa [written?, toMembers, Json.tree, Json.numeral_floatText _ wide, Tree.value?] using
        written.symm
    rw [lost] at accepted
    simp [ofMembers, type, property, Json.lastMember?, Json.single?, bind, Except.bind] at accepted
  | _ => exact fun _ member => absurd member List.not_mem_nil

end NodeKind

/-! ### Nodes and links -/

/-- What is read of the coordinates that are written for a node. -/
def Position.written? (position : Position) : Option Position := do
  let x ← (Json.tree (.single position.x)).single?
  let y ← (Json.tree (.single position.y)).single?
  pure ⟨x, y⟩

namespace Graph

/-- What is read of the entry that is written for a node. -/
theorem ofTree?_nodeJson (node : Node) :
    NodeRecord.ofTree? (nodeJson node).tree =
      node.kind.written?.bind fun members => node.position.written?.map fun position =>
        ⟨node.type.id, node.uuid, position, members⟩ := by
  let fields : List (String × Json) := [("type", .int node.type.id), ("uuid", .int node.uuid.toNat),
    ("position", .array [.single node.position.x, .single node.position.y])]
  have distinct : ((fields ++ node.kind.toMembers).map (·.1)).Nodup := by
    cases node.kind <;> simp [fields, NodeKind.toMembers]
  have opened : (nodeJson node).tree.openRecord? 3 ["type", "uuid", "position"] = _ :=
    Tree.openRecord?_tree 3 distinct
  have type : (Json.tree (.int node.type.id)).natBelow? UInt32.size = some node.type.id :=
    Json.natBelow?_int (by cases node.type <;> decide) (by cases node.type <;> decide)
  have uuid : (Json.tree (.int node.uuid.toNat)).natBelow? UInt64.size = some node.uuid.toNat :=
    Json.natBelow?_int node.uuid.toNat_lt_size node.uuid.toNat_lt_size
  have uuid' : node.uuid.toNat.toUInt64 = node.uuid := by simp
  rw [NodeRecord.ofTree?, opened]
  change (Option.map _ node.kind.written?).bind _ = _
  cases node.kind.written? with
  | none => rfl
  | some members =>
    have position : positionOfTree? (some (Json.array [.single node.position.x,
        .single node.position.y]).tree) = node.position.written? := rfl
    simp only [Option.map_some, Option.bind_some, List.map_cons, List.map_nil,
      Option.bind_eq_bind, type, uuid, uuid', position]
    rw [Option.map_eq_bind]
    rfl

/-- A node is read back. -/
theorem toNode_written {node : Node} (reads : ∀ n ∈ node.numerals, ReadsAs n.1 n.2) :
    ∃ entry, NodeRecord.ofTree? (nodeJson node).tree = some entry ∧ entry.toNode = .ok node := by
  obtain ⟨x, others⟩ := List.forall_mem_cons.mp reads
  obtain ⟨y, properties⟩ := List.forall_mem_cons.mp others
  obtain ⟨members, written, read⟩ := NodeKind.ofMembers_written properties
  have position : node.position.written? = some node.position := by
    simp [Position.written?, Json.tree, x.single?, y.single?]
  refine ⟨⟨node.type.id, node.uuid, node.position, members⟩, ?_, ?_⟩
  · rw [ofTree?_nodeJson, written, position]
    rfl
  · rw [← Node.type] at read
    simp [NodeRecord.toNode, NodeType.ofId?_id, read]

/-- Where an entry is read, its node is found or is said to be no JSON; and it is not found with
numbers that are not finite. -/
theorem toNode_cases {node : Node} {entry : NodeRecord}
    (read : NodeRecord.ofTree? (nodeJson node).tree = some entry) :
    (∃ found, entry.toNode = .ok found ∧ ∀ n ∈ node.numerals, n.2.isFinite = true) ∨
      ∃ cause, entry.toNode = .error cause ∧ cause.isJson = true := by
  rw [ofTree?_nodeJson] at read
  obtain ⟨members, written, read⟩ := Option.bind_eq_some_iff.mp read
  obtain ⟨position, placed, rfl⟩ := Option.map_eq_some_iff.mp read
  cases accepted : NodeKind.ofMembers node.type members with
  | error fault =>
    right
    exact ⟨.malformedNode node.uuid fault, by
      simp [NodeRecord.toNode, NodeType.ofId?_id, accepted], rfl⟩
  | ok kind =>
    left
    refine ⟨⟨node.uuid, kind, position⟩, by
      simp [NodeRecord.toNode, NodeType.ofId?_id, accepted], ?_⟩
    have coordinate {x : Binary32} (present : (Json.tree (.single x)).single?.isSome) :
        x.isFinite = true := by
      by_contra infinite
      rw [Json.tree, Json.numeral_floatText _ (by simpa using infinite)] at present
      simp [Tree.single?] at present
    obtain ⟨x, first, rest⟩ := Option.bind_eq_some_iff.mp placed
    obtain ⟨y, second, -⟩ := Option.bind_eq_some_iff.mp rest
    refine List.forall_mem_cons.mpr ⟨coordinate (first ▸ rfl), List.forall_mem_cons.mpr
      ⟨coordinate (second ▸ rfl), NodeKind.isFinite_of_accepted written accepted⟩⟩

theorem linkOfTree?_linkJson (link : Link) : linkOfTree? (linkJson link).tree = some link := by
  let fields : List (String × Json) := [("fromNode", .int link.fromNode.toNat),
    ("fromPin", .int link.fromPin.toNat), ("toNode", .int link.toNode.toNat),
    ("toPin", .int link.toPin.toNat)]
  have distinct : (fields.map (·.1)).Nodup := by simp [fields]
  have opened : (linkJson link).tree.record? ["fromNode", "fromPin", "toNode", "toPin"] = _ :=
    Tree.record?_tree distinct
  have word (n : UInt64) := Json.natBelow?_int n.toNat_lt_size n.toNat_lt_size
  have pin (n : UInt16) := Json.natBelow?_int n.toNat_lt_size (n.toNat_lt_size.trans (by decide))
  rw [linkOfTree?, opened]
  simp [word, pin]

/-! ### Documents -/

/-- What is read of the document that is written for a graph. -/
theorem partsOfTree?_toJson (g : Graph) :
    (Tree.parse? g.toJson).bind partsOfTree? =
      (g.nodes.mapM fun node => NodeRecord.ofTree? (nodeJson node).tree).map
        fun entries => (entries, g.links) := by
  let fields : List (String × Json) := [("nodes", .array (g.nodes.map nodeJson)),
    ("links", .array (g.links.map linkJson))]
  have opened : (Json.object fields).tree.record? ["nodes", "links"] = _ :=
    Tree.record?_tree (by simp [fields])
  have nodes : (Json.array (g.nodes.map nodeJson)).tree =
      .array (g.nodes.map fun node => (nodeJson node).tree) := by
    rw [Json.tree, Json.itemTrees_eq_map, List.map_map]
    rfl
  have links : (Json.array (g.links.map linkJson)).tree =
      .array (g.links.map fun link => (linkJson link).tree) := by
    rw [Json.tree, Json.itemTrees_eq_map, List.map_map]
    rfl
  have each : g.links.mapM (linkOfTree? ∘ fun link => (linkJson link).tree) = some g.links := by
    refine (mapM_eq_pure id fun link _ => ?_).trans (congrArg some (List.map_id _))
    exact linkOfTree?_linkJson link
  rw [toJson, Json.parse?_pretty, Option.bind_some, partsOfTree?, opened, Option.map_eq_bind]
  simp only [fields, List.map_cons, List.map_nil, Option.bind_eq_bind, Option.bind_some, nodes,
    links, Tree.array?, List.mapM_map, each]
  rfl

/-- Nodes are read back in their order. -/
theorem mapM_toNode_written {nodes : List Node}
    (reads : ∀ node ∈ nodes, ∀ n ∈ node.numerals, ReadsAs n.1 n.2) :
    ∃ entries, nodes.mapM (fun node => NodeRecord.ofTree? (nodeJson node).tree) = some entries ∧
      entries.mapM NodeRecord.toNode = .ok nodes := by
  induction nodes with
  | nil => exact ⟨[], rfl, rfl⟩
  | cons node nodes ih =>
    obtain ⟨first, others⟩ := List.forall_mem_cons.mp reads
    obtain ⟨entry, read, accepted⟩ := toNode_written first
    obtain ⟨entries, read', accepted'⟩ := ih others
    refine ⟨entry :: entries, ?_, ?_⟩
    · rw [List.mapM_cons, read, read']
      rfl
    · rw [List.mapM_cons, accepted, accepted']
      rfl

/-- What is read of several nodes: all of them, which are finite then, or that one of them is no
JSON. -/
theorem mapM_toNode_cases {nodes : List Node} {entries : List NodeRecord}
    (read : nodes.mapM (fun node => NodeRecord.ofTree? (nodeJson node).tree) = some entries) :
    (∃ found, entries.mapM NodeRecord.toNode = .ok found ∧
        ∀ node ∈ nodes, ∀ n ∈ node.numerals, n.2.isFinite = true) ∨
      ∃ cause, entries.mapM NodeRecord.toNode = .error cause ∧ cause.isJson = true := by
  induction nodes generalizing entries with
  | nil =>
    obtain rfl := Option.some.inj read
    exact .inl ⟨[], rfl, nofun⟩
  | cons node nodes ih =>
    rw [List.mapM_cons] at read
    obtain ⟨entry, first, read⟩ := Option.bind_eq_some_iff.mp read
    obtain ⟨others, rest, same⟩ := Option.bind_eq_some_iff.mp read
    obtain rfl := Option.some.inj same
    rw [List.mapM_cons]
    rcases toNode_cases first with ⟨found, accepted, finite⟩ | ⟨cause, refused, json⟩
    · rcases ih rest with ⟨found', accepted', finite'⟩ | ⟨cause, refused, json⟩
      · left
        exact ⟨found :: found', by simp [accepted, accepted', bind, Except.bind, pure, Except.pure],
          List.forall_mem_cons.mpr ⟨finite, finite'⟩⟩
      · right
        exact ⟨cause, by simp [accepted, refused, bind, Except.bind], json⟩
    · right
      exact ⟨cause, by simp [refused, bind, Except.bind], json⟩

/-- A well-formed graph of finite numbers is read back. -/
theorem ofJson_written {g : Graph} (formed : g.WellFormed) (finite : g.Finite)
    (reads : g.ReadsBack) : ofJson g.toJson = .ok g := by
  obtain ⟨entries, read, accepted⟩ := mapM_toNode_written fun node member n number =>
    reads node member n number (finite node member n number)
  rw [ofJson, partsOfTree?_toJson, read]
  change (entries.mapM NodeRecord.toNode >>= fun nodes => ofParts nodes g.links) = _
  rw [accepted]
  exact (ofParts_eq_ok_iff g.nodes g.links g).mpr ⟨rfl, formed⟩

/-- What is written for a graph is read back as that graph if its coordinates and times are finite
and their texts are read as these numbers, and is refused as no JSON if one of them is not finite. -/
theorem ofJson_toJson {g : Graph} (made : g.Obtainable) :
    (g.Finite → g.ReadsBack → ofJson g.toJson = .ok g) ∧
      (¬ g.Finite → ∃ cause, ofJson g.toJson = .error cause ∧ cause.isJson = true) := by
  constructor
  · exact fun finite reads => ofJson_written made.wellFormed finite reads
  · intro infinite
    rw [ofJson, partsOfTree?_toJson]
    -- A coordinate that is not finite spoils the whole text, a time only its node.
    cases read : g.nodes.mapM fun node => NodeRecord.ofTree? (nodeJson node).tree with
    | none => exact ⟨.malformed, rfl, rfl⟩
    | some entries =>
      rcases mapM_toNode_cases read with ⟨found, -, finite⟩ | ⟨cause, refused, json⟩
      · exact absurd finite infinite
      · exact ⟨cause, by simp [refused, bind, Except.bind], json⟩

/-- A pause of a tenth of a second and a call of a function with an unusual name. -/
def pausing (x : Binary32) : Graph where
  nodes :=
    [⟨0xFFFFFFFFFFFFFFFF, .start, .origin⟩,
      ⟨1, .wait ⟨false, 0x3DCCCCCD⟩, ⟨x, ⟨true, 0x40100000⟩⟩⟩,
      ⟨2, .function "say \"hi\"\n\x01" 0xFFFFFFFF, .origin⟩]
  links := [⟨0xFFFFFFFFFFFFFFFF, 0, 1, 0⟩, ⟨1, 0, 2, 0⟩]

/-- The graph can be made, is read back with a node at a finite place, and is refused with one at no
place. -/
theorem ofJson_toJson_pausing :
    (pausing ⟨false, 0x3FC00000⟩).Obtainable ∧ (pausing .nan).Obtainable ∧
      ofJson (pausing ⟨false, 0x3FC00000⟩).toJson = .ok (pausing ⟨false, 0x3FC00000⟩) ∧
      ∃ cause, ofJson (pausing .nan).toJson = .error cause ∧ cause.isJson = true := by
  have made (x : Binary32) : (pausing x).Obtainable := by
    have placed := (Obtainable.single 0xFFFFFFFFFFFFFFFF).add (.wait ⟨false, 0x3DCCCCCD⟩)
      ⟨x, ⟨true, 0x40100000⟩⟩ 1 (node?_freshUuid (by decide) 1)
    have named := placed.add (.function "say \"hi\"\n\x01" 0xFFFFFFFF) .origin 2
      (node?_freshUuid (by change 4 ≤ UInt64.size; decide) 2)
    have linked := named.link ⟨0xFFFFFFFFFFFFFFFF, 0, 1, 0⟩ rfl
    exact linked.link ⟨1, 0, 2, 0⟩ rfl
  have there := ofJson_toJson (made ⟨false, 0x3FC00000⟩)
  have nowhere := ofJson_toJson (made .nan)
  exact ⟨made _, made _, there.1 (by decide +kernel) (by decide +kernel),
    nowhere.2 (by decide +kernel)⟩

end Graph

end NodeScript
