import NodeScript.Proofs.Graph.Rows
import NodeScript.Proofs.Packed.Roundtrip

/-!
Which graphs do not fit a packed form. Packing an accepted graph stops at the loop for which no
counter number is left, and otherwise at the first record with a successor too far away; both can be
told from the graph, since the length of a record depends on the type of its node alone. Nothing else
stops it, short of more records than the header can count.
-/
namespace NodeScript

/-- A traversal whose items can fail in one way only fails in this way if one of them does. -/
theorem mapM_eq_error {ε α β : Type} {f : α → Except ε β} {items : List α} {error : ε}
    (only : ∀ item ∈ items, (∃ result, f item = .ok result) ∨ f item = .error error)
    (failing : ∃ item ∈ items, ∀ result, f item ≠ .ok result) : items.mapM f = .error error := by
  induction items with
  | nil =>
    obtain ⟨item, member, -⟩ := failing
    cases member
  | cons item rest ih =>
    obtain ⟨first, others⟩ := List.forall_mem_cons.mp only
    rw [List.mapM_cons]
    rcases first with ⟨result, success⟩ | failed
    · have later : ∃ item ∈ rest, ∀ result, f item ≠ .ok result := by
        obtain ⟨other, member, fails⟩ := failing
        rcases List.mem_cons.mp member with rfl | member
        · exact absurd success (fails result)
        · exact ⟨other, member, fails⟩
      rw [success, ih others later]
      rfl
    · rw [failed]
      rfl

namespace Packed

variable {g : Graph} {asset : String}

/-! The order -/

/-- Links of a well-formed graph lead to nodes, so all that is pending is found. -/
theorem walk_success (formed : g.WellFormed) {visits : Nat} {pending : List (Uuid × Uuid)}
    {seen : List Uuid} (present : ∀ entry ∈ pending, (g.node? entry.1).isSome) :
    ∃ nodes, walk g asset visits pending seen = .ok nodes := by
  induction visits generalizing pending seen with
  | zero => exact ⟨[], rfl⟩
  | succ visits ih =>
    match pending with
    | [] => exact ⟨[], rfl⟩
    | (uuid, source) :: pending =>
      obtain ⟨here, present⟩ := List.forall_mem_cons.mp present
      rw [walk]
      split
      · exact ih present
      · obtain ⟨node, found⟩ := Option.isSome_iff_exists.mp here
        simp only [found]
        have next : ∀ entry ∈ ((successors g node).filterMap id).map (fun target => (target, uuid)),
            (g.node? entry.1).isSome := by
          intro entry member
          obtain ⟨target, linked, rfl⟩ := List.mem_map.mp member
          obtain ⟨successor, output, rfl⟩ := List.mem_filterMap.mp linked
          obtain ⟨pin, -, leads⟩ := List.mem_map.mp output
          obtain ⟨other, found, -⟩ := formed.successor leads
          exact Option.isSome_iff_exists.mpr ⟨other, found⟩
        obtain ⟨rest, walked⟩ := ih (List.forall_mem_append.mpr ⟨next, present⟩)
        exact ⟨node :: rest, bind_eq_ok_iff.mpr ⟨rest, walked, rfl⟩⟩

theorem order_success (formed : g.WellFormed) (asset : String) :
    ∃ nodes after, order g asset = .ok nodes ∧ Preorder g [] [g.start.uuid] nodes after := by
  have start := Option.isSome_iff_exists.mpr ⟨_, formed.node?_start.1⟩
  obtain ⟨nodes, ordered⟩ : ∃ nodes, order g asset = .ok nodes :=
    walk_success formed (List.forall_mem_singleton.mpr start)
  obtain ⟨after, entered⟩ := order_preorder ordered
  exact ⟨nodes, after, ordered, entered⟩

/-! Counter numbers -/

/-- Only loops without a number have no payload. -/
theorem payload_success {loops : Nat} {node : Node} (few : node.type = .loop → loops < 256) :
    ∃ data, payload g asset loops node = .ok data := by
  rw [payload]
  rw [Node.type] at few
  cases kind : node.kind with
  | loop count =>
    rw [kind] at few
    exact ⟨_, if_pos (few rfl)⟩
  | _ => exact ⟨_, rfl⟩

theorem payload_overflow {loops : Nat} {node : Node} (loop : node.type = .loop)
    (many : 256 ≤ loops) :
    payload g asset loops node = .error (.packedOverflow asset node.uuid .counterSlot) := by
  rw [payload]
  rw [Node.type] at loop
  cases kind : node.kind with
  | loop count => exact if_neg (Nat.not_lt.mpr many)
  | _ =>
    rw [kind] at loop
    cases loop

theorem outlines_success {loops : Nat} {nodes : List Node}
    (few : loops + nodes.countP (·.type = .loop) ≤ 256) :
    ∃ records, outlines g asset loops nodes = .ok records := by
  induction nodes generalizing loops with
  | nil => exact ⟨[], rfl⟩
  | cons node rest ih =>
    rw [List.countP_cons] at few
    obtain ⟨data, content⟩ : ∃ data, payload g asset loops node = .ok data :=
      payload_success fun loop => by simp only [loop, decide_true, if_true] at few; omega
    obtain ⟨records, others⟩ : ∃ records,
        outlines g asset (if node.type = .loop then loops + 1 else loops) rest = .ok records :=
      ih (by by_cases loop : node.type = .loop <;> simp [loop] at few ⊢ <;> omega)
    exact ⟨_, bind_eq_ok_iff.mpr ⟨data, content, bind_eq_ok_iff.mpr ⟨records, others, rfl⟩⟩⟩

/-- The loop that fails is the one with as many loops before it as there are numbers. -/
theorem outlines_overflow {loops : Nat} {nodes : List Node} (numbered : loops ≤ 256) {node : Node}
    (last : (nodes.filter (·.type = .loop))[256 - loops]? = some node) :
    outlines g asset loops nodes = .error (.packedOverflow asset node.uuid .counterSlot) := by
  induction nodes generalizing loops with
  | nil => cases last
  | cons first rest ih =>
    rw [outlines]
    by_cases loop : first.type = .loop
    · rw [List.filter_cons_of_pos (by simpa using loop)] at last
      rcases Nat.eq_or_lt_of_le numbered with rfl | few
      · cases last
        rw [payload_overflow loop (Nat.le_refl _)]
        rfl
      · obtain ⟨data, content⟩ : ∃ data, payload g asset loops first = .ok data :=
          payload_success fun _ => few
        obtain ⟨left, same⟩ : ∃ left, 256 - loops = left + 1 := ⟨255 - loops, by omega⟩
        rw [same, List.getElem?_cons_succ, show left = 256 - (loops + 1) by omega] at last
        rw [content, if_pos loop, ih few last]
        rfl
    · rw [List.filter_cons_of_neg (by simpa using loop)] at last
      obtain ⟨data, content⟩ : ∃ data, payload g asset loops first = .ok data :=
        payload_success fun same => absurd same loop
      rw [content, if_neg loop, ih numbered last]
      rfl

/-! Distances -/

theorem distance_cases (asset : String) (places : List (Uuid × Nat)) (node : Uuid) (position : Nat)
    (target : Option Uuid) :
    (∃ steps, distance asset places node position target = .ok steps) ∨
      distance asset places node position target =
        .error (.packedOverflow asset node .successorOffset) := by
  cases target with
  | none => exact .inl ⟨_, rfl⟩
  | some uuid =>
    simp only [distance]
    split
    · exact .inl ⟨_, rfl⟩
    · split
      · exact .inl ⟨_, rfl⟩
      · exact .inr rfl

/-- All outputs of a record can be given distances. -/
def Fits (asset : String) (places : List (Uuid × Nat)) (position : Nat) (record : Outline) : Prop :=
  ∀ target ∈ record.successors, ∃ steps,
    distance asset places record.node position target = .ok steps

variable {places : List (Uuid × Nat)} {position : Nat}

theorem recordBytes_success {record : Outline} (fits : Fits asset places position record) :
    ∃ bytes, recordBytes asset places position record = .ok bytes := by
  obtain ⟨steps, measured⟩ := mapM_success fits
  exact ⟨_, bind_eq_ok_iff.mpr ⟨steps, measured, rfl⟩⟩

theorem recordBytes_overflow {record : Outline} (strays : ¬ Fits asset places position record) :
    recordBytes asset places position record =
      .error (.packedOverflow asset record.node .successorOffset) := by
  have failing : ∃ target ∈ record.successors, ∀ steps,
      distance asset places record.node position target ≠ .ok steps := by
    simpa [Fits] using strays
  rw [recordBytes, mapM_eq_error (fun target _ => distance_cases ..) failing]
  rfl

theorem startOf_zero (position : Nat) (records : List Outline) : startOf position records 0 = position :=
  rfl

theorem recordsBytes_success {records : List Outline}
    (fit : ∀ index record, records[index]? = some record →
      Fits asset places (startOf position records index) record) :
    ∃ body, recordsBytes asset places position records = .ok body := by
  induction records generalizing position with
  | nil => exact ⟨[], rfl⟩
  | cons record rest ih =>
    obtain ⟨bytes, first⟩ := recordBytes_success (startOf_zero .. ▸ fit 0 record rfl)
    obtain ⟨body, others⟩ := ih fun index other at_index =>
      startOf_cons .. ▸ fit (index + 1) other at_index
    exact ⟨_, bind_eq_ok_iff.mpr ⟨bytes, first, bind_eq_ok_iff.mpr ⟨body, others, rfl⟩⟩⟩

theorem recordsBytes_overflow {records : List Outline} {index : Nat} {record : Outline}
    (at_index : records[index]? = some record)
    (strays : ¬ Fits asset places (startOf position records index) record)
    (earlier : ∀ before other, before < index → records[before]? = some other →
      Fits asset places (startOf position records before) other) :
    recordsBytes asset places position records =
      .error (.packedOverflow asset record.node .successorOffset) := by
  induction records generalizing position index with
  | nil => cases at_index
  | cons first rest ih =>
    cases index with
    | zero =>
      cases at_index
      rw [startOf_zero] at strays
      rw [recordsBytes, recordBytes_overflow strays]
      rfl
    | succ index =>
      obtain ⟨bytes, written⟩ :=
        recordBytes_success (startOf_zero .. ▸ earlier 0 first (Nat.succ_pos _) rfl)
      have later := ih at_index (startOf_cons .. ▸ strays) fun before other less found =>
        startOf_cons .. ▸ earlier (before + 1) other (Nat.succ_lt_succ less) found
      rw [recordsBytes, written, later]
      rfl

/-! Records told from the graph -/

/-- The number of bytes of the payload of a node of a type. -/
def payloadLength : NodeType → Nat
  | .start => 0
  | .wait | .deleteObject | .value | .loop => 2
  | .sendEvent | .function => 8
  | .compare => 10

/-- The number of bytes of the record of a node. -/
def recordLength (node : Node) : Nat :=
  2 + 2 * node.type.logicOutputs.length + payloadLength node.type

/-- The position of the record of the node at an index. -/
def placeOf (visited : List Node) (index : Nat) : Nat :=
  headerLength + ((visited.take index).map recordLength).sum

/-- A Logic output of the node at an index leads to a node whose record is out of reach of two signed
bytes, of which one value is not for distances. -/
def Strays (g : Graph) (visited : List Node) (index : Nat) : Prop :=
  ∃ node next target, ∃ pin ∈ node.type.logicOutputs, visited[index]? = some node ∧
    visited[target]? = some next ∧ g.successor? node.uuid pin = some next.uuid ∧
    ¬ (-32767 ≤ (placeOf visited target : Int) - placeOf visited index ∧
      (placeOf visited target : Int) - placeOf visited index ≤ 32767)

/-- Where the records have few bytes in all, no successor is out of reach. -/
theorem not_strays_of_short {visited : List Node} (short : (visited.map recordLength).sum ≤ 32767)
    (index : Nat) : ¬ Strays g visited index := by
  have within (index : Nat) : headerLength ≤ placeOf visited index ∧
      placeOf visited index ≤ headerLength + 32767 := by
    have whole := List.sum_take_add_sum_drop (visited.map recordLength) index
    rw [← List.map_take] at whole
    rw [placeOf]
    omega
  rintro ⟨node, next, target, pin, -, -, -, -, far⟩
  have source := within index
  have destination := within target
  omega

theorem loops_row (kind : NodeKind) (last : Nat) :
    (Graph.row kind last).nodes.filter (·.type = .loop) =
      if kind.type = .loop then (List.range' 1 last).map (Graph.rowNode kind) else [] := by
  have start : ¬ decide ((Graph.rowNode kind 0).type = .loop) = true := of_decide_eq_false rfl
  have others := Graph.filter_row kind last (· = .loop)
  rw [Graph.nodes_row, List.filter_cons, if_neg start, others]
  simp only [decide_eq_true_eq]

/-- Behind Start the records of a row have one length. -/
theorem placeOf_row {kind : NodeKind} {last place : Nat} (behind : 0 < place)
    (inside : place ≤ last) : placeOf (Graph.row kind last).nodes place =
      headerLength + 8 + (place - 1) * recordLength ⟨0, kind, .origin⟩ := by
  obtain ⟨before, rfl⟩ := Nat.exists_eq_add_one.mpr behind
  have alike : (((List.range' 1 last).map (Graph.rowNode kind)).take before).map recordLength =
      List.replicate before (recordLength ⟨0, kind, .origin⟩) := by
    refine List.eq_replicate_iff.mpr ⟨?_, List.forall_mem_map.mpr fun node member => ?_⟩
    · rw [List.length_map, List.length_take, List.length_map, List.length_range']
      omega
    · obtain ⟨n, listed, rfl⟩ := List.mem_map.mp (List.mem_of_mem_take member)
      rw [recordLength, Graph.type_rowNode (List.mem_range'_1.mp listed).1]
      rfl
  rw [placeOf, Graph.nodes_row, List.take_succ_cons, List.map_cons, alike, List.sum_cons,
    List.sum_replicate, ← Nat.add_assoc]
  rfl

/-- In a long row the last node is out of reach for Start. -/
theorem strays_row {kind : NodeKind} {last : Nat} (fits : last < UInt64.size)
    (filled : 0 < last) (far : 32767 < 8 + (last - 1) * recordLength ⟨0, kind, .origin⟩) :
    Strays (Graph.row kind last) (Graph.row kind last).nodes 0 := by
  have leads := @Graph.successor?_row kind _ _ fits (Nat.zero_le last) 1
  have second : 1 ∈ (Graph.rowNode kind 0).type.logicOutputs :=
    show 1 ∈ NodeType.start.logicOutputs by decide
  refine ⟨_, _, last, 1, second, Graph.getElem?_row (Nat.zero_le last),
    Graph.getElem?_row (Nat.le_refl last), leads, ?_⟩
  have place : placeOf (Graph.row kind last).nodes 0 = headerLength := rfl
  rw [placeOf_row filled (Nat.le_refl last), place]
  omega

theorem Payload.size_eq (data : Payload) : data.size = payloadLength data.type := by
  cases data <;> rfl

section Records

variable {visited : List Node} {records : List Outline} {after : List Uuid}

theorem map_length_outlines (outlined : outlines g asset 0 visited = .ok records) :
    records.map Outline.length = visited.map recordLength := by
  obtain ⟨length, each⟩ := outlines_eq_ok outlined
  refine map_eq_map_of_getElem? length fun index node at_index => ?_
  obtain ⟨data, content, record⟩ := each index node at_index
  have type := (payload_tells content).2
  have even : payloadLength node.type % 2 = 0 := by cases node.type <;> rfl
  rw [record, Option.map_some, Option.some.injEq, Outline.length, recordLength, data.size_eq, type,
    successors, List.length_map]
  omega

theorem startOf_eq_placeOf (outlined : outlines g asset 0 visited = .ok records) (index : Nat) :
    startOf headerLength records index = placeOf visited index := by
  rw [startOf, placeOf, List.map_take, List.map_take, map_length_outlines outlined]

/-- The record of a node is found under its identifier. -/
theorem find?_positions (outlined : outlines g asset 0 visited = .ok records)
    (distinct : (visited.map (·.uuid)).Nodup) {target : Nat} {next : Node}
    (at_target : visited[target]? = some next) :
    ((positions headerLength records).find? fun place => place.1 == next.uuid) =
      some (next.uuid, placeOf visited target) := by
  obtain ⟨data, -, record⟩ := (outlines_eq_ok outlined).2 target next at_target
  have place := getElem?_positions headerLength records target
  rw [record, Option.map_some, startOf_eq_placeOf outlined] at place
  have keys : ((positions headerLength records).map (·.1)).Nodup := by
    have same : (positions headerLength records).map (·.1) = records.map (·.node) :=
      map_eq_map_of_getElem? (length_positions _ _) fun index other at_index => by
        rw [getElem?_positions, at_index]
        rfl
    rw [same, outlines_order outlined]
    exact distinct
  exact find?_of_nodup_keys keys (List.mem_of_getElem? place)

/-- What a visited node leads to is visited. -/
theorem exists_visited (entered : Preorder g [] [g.start.uuid] visited after) {node : Node}
    (visit : node ∈ visited) {pin : UInt16} (output : pin ∈ node.type.logicOutputs) {uuid : Uuid}
    (linked : g.successor? node.uuid pin = some uuid) :
    ∃ (target : Nat) (next : Node), visited[target]? = some next ∧ next.uuid = uuid := by
  have reached := (entered.mem_iff node.uuid).mp (List.mem_map_of_mem visit)
  have leads : g.LeadsTo node.uuid uuid :=
    ⟨node, entered.found node visit, List.mem_filterMap.mpr ⟨pin, output, linked⟩⟩
  obtain ⟨next, member, same⟩ := List.mem_map.mp ((entered.mem_iff uuid).mpr (reached.tail leads))
  obtain ⟨target, at_target⟩ := List.getElem?_of_mem member
  exact ⟨target, next, at_target, same⟩

theorem fits_iff (entered : Preorder g [] [g.start.uuid] visited after)
    (outlined : outlines g asset 0 visited = .ok records) {index : Nat} {record : Outline}
    (at_index : records[index]? = some record) :
    Fits asset (positions headerLength records) (startOf headerLength records index) record ↔
      ¬ Strays g visited index := by
  have place := startOf_eq_placeOf outlined index
  obtain ⟨length, each⟩ := outlines_eq_ok outlined
  have inside : index < visited.length := length ▸ (List.getElem?_eq_some_iff.mp at_index).1
  have visit := List.getElem?_eq_getElem inside
  obtain ⟨data, -, known⟩ := each index _ visit
  obtain rfl := Option.some.inj (at_index.symm.trans known)
  -- What is measured where an output is linked.
  have measured {target : Nat} {next : Node} (at_target : visited[target]? = some next) :
      distance asset (positions headerLength records) visited[index].uuid
          (startOf headerLength records index) (some next.uuid) =
        if unlinked < (placeOf visited target : Int) - placeOf visited index ∧
            (placeOf visited target : Int) - placeOf visited index < 32768
        then .ok ((placeOf visited target : Int) - placeOf visited index)
        else .error (.packedOverflow asset visited[index].uuid .successorOffset) := by
    rw [distance, find?_positions outlined entered.nodup_visited at_target, place]
  constructor
  · rintro fits ⟨node, next, target, pin, output, at_index', at_target, linked, far⟩
    obtain rfl := Option.some.inj (visit.symm.trans at_index')
    obtain ⟨steps, success⟩ := fits (some next.uuid) (List.mem_map.mpr ⟨pin, output, linked⟩)
    rw [measured at_target, if_neg (by rw [unlinked]; omega)] at success
    cases success
  · intro near target member
    obtain ⟨pin, output, rfl⟩ := List.mem_map.mp member
    cases linked : g.successor? visited[index].uuid pin with
    | none => exact ⟨unlinked, rfl⟩
    | some uuid =>
      obtain ⟨target, next, at_target, rfl⟩ :=
        exists_visited entered (List.getElem_mem inside) output linked
      refine ⟨_, (measured at_target).trans (if_pos (not_not.mp fun far => near ?_))⟩
      rw [unlinked] at far
      exact ⟨_, next, target, pin, output, visit, at_target, linked, by omega⟩

/-! Where distances are written -/

theorem distanceBytes_injective {steps steps' : Int} (bounded : -32768 ≤ steps ∧ steps < 32768)
    (bounded' : -32768 ≤ steps' ∧ steps' < 32768)
    (same : distanceBytes steps = distanceBytes steps') : steps = steps' := by
  have read := @Reader.Reads.distance 0 _ bounded.1 bounded.2 []
  rw [same, Reader.Reads.distance bounded'.1 bounded'.2 []] at read
  exact (Prod.mk.inj (Except.ok.inj read)).1.symm

theorem take_drop_distances {steps : List Int} {output : Nat} {step : Int}
    (at_output : steps[output]? = some step) (behind : List UInt8) :
    ((steps.flatMap distanceBytes ++ behind).drop (2 * output)).take 2 = distanceBytes step := by
  induction steps generalizing output with
  | nil => cases at_output
  | cons first rest ih =>
    rw [List.flatMap_cons, List.append_assoc]
    cases output with
    | zero =>
      cases at_output
      exact List.take_left' (length_distanceBytes _)
    | succ output =>
      have past : 2 * (output + 1) = (distanceBytes first).length + 2 * output := by
        rw [length_distanceBytes]
        omega
      rw [past, ← List.drop_drop, List.drop_left' rfl]
      exact ih at_output

/-- A record is written where it starts. -/
theorem recordsBytes_at {body : List UInt8}
    (sound : ∀ record ∈ records, record.payload.type = record.type ∧ record.successors.length < 256)
    (written : recordsBytes asset places position records = .ok body) {index : Nat}
    {record : Outline} (at_index : records[index]? = some record) :
    ∃ front bytes behind, body = front ++ (bytes ++ behind) ∧
      position + front.length = startOf position records index ∧
      recordBytes asset places (startOf position records index) record = .ok bytes := by
  induction records generalizing position body index with
  | nil => cases at_index
  | cons first rest ih =>
    obtain ⟨⟨typed, few⟩, sound⟩ := List.forall_mem_cons.mp sound
    simp only [recordsBytes, bind_eq_ok_iff] at written
    obtain ⟨bytes, firstWritten, others, restWritten, ⟨⟩⟩ := written
    cases index with
    | zero =>
      cases at_index
      exact ⟨[], bytes, others, rfl, rfl, firstWritten⟩
    | succ index =>
      obtain ⟨front, bytes', behind, rfl, start, written⟩ := ih sound restWritten at_index
      have length := (Reader.Reads.record typed few firstWritten).1
      rw [startOf_cons]
      refine ⟨bytes ++ front, bytes', behind, by simp, ?_, written⟩
      rw [List.length_append, length, ← start, Nat.add_assoc]

theorem outlines_typed (outlined : outlines g asset 0 visited = .ok records) :
    ∀ record ∈ records, record.payload.type = record.type ∧ record.successors.length < 256 := by
  intro record member
  obtain ⟨-, -, -, typed⟩ := outlines_sound outlined record member
  exact typed

theorem length_body {body : List UInt8} (outlined : outlines g asset 0 visited = .ok records)
    (written : recordsBytes asset places position records = .ok body) :
    body.length = (visited.map recordLength).sum := by
  rw [(Reader.Reads.records (outlines_typed outlined) written).1, map_length_outlines outlined]

section Written

variable {header body : List UInt8} {index output : Nat} {node : Node} {pin : UInt16}
  (outlined : outlines g asset 0 visited = .ok records) (length : header.length = headerLength)
  (written : recordsBytes asset (positions headerLength records) headerLength records = .ok body)
  (at_index : visited[index]? = some node) (at_output : node.type.logicOutputs[output]? = some pin)

include outlined length written at_index at_output

/-- What is written for an output is its distance. -/
theorem distance_written : ∃ step,
    distance asset (positions headerLength records) node.uuid (placeOf visited index)
      (g.successor? node.uuid pin) = .ok step ∧
    ((header ++ body).drop (placeOf visited index + 2 + 2 * output)).take 2 =
      distanceBytes step := by
  obtain ⟨data, -, known⟩ := (outlines_eq_ok outlined).2 index node at_index
  obtain ⟨front, bytes, behind, rfl, start, recorded⟩ :=
    recordsBytes_at (outlines_typed outlined) written known
  rw [startOf_eq_placeOf outlined] at start recorded
  obtain ⟨steps, measured, rfl⟩ := recordBytes_eq_ok recorded
  have target : (successors g node)[output]? = some (g.successor? node.uuid pin) := by
    rw [successors, List.getElem?_map, at_output, Option.map_some]
  obtain ⟨step, at_step, distant⟩ := forall₂_getElem? measured target
  refine ⟨step, distant, ?_⟩
  -- The distances begin behind the bytes for the type and for their number.
  have place : placeOf visited index + 2 + 2 * output = (header ++ front
      ++ [node.type.id.toUInt8, (successors g node).length.toUInt8]).length + 2 * output := by
    simp [length, ← start, Nat.add_assoc]
  have shape (later : List UInt8) : header ++ (front ++ ([node.type.id.toUInt8]
      ++ ([(successors g node).length.toUInt8] ++ (steps.flatMap distanceBytes ++ later))
        ++ behind)) =
      (header ++ front ++ [node.type.id.toUInt8, (successors g node).length.toUInt8])
        ++ (steps.flatMap distanceBytes ++ (later ++ behind)) := by simp
  rw [shape, place, ← List.drop_drop, List.drop_left' rfl, take_drop_distances at_step]

/-- The distance that stands for none is written for outputs without a link, and for no others. -/
theorem distance_unlinked_iff (entered : Preorder g [] [g.start.uuid] visited after) :
    ((header ++ body).drop (placeOf visited index + 2 + 2 * output)).take 2 = [0x80, 0] ↔
      g.successor? node.uuid pin = none := by
  obtain ⟨step, distant, field⟩ := distance_written outlined length written at_index at_output
  rw [field, show [0x80, 0] = distanceBytes unlinked from rfl]
  constructor
  · intro same
    obtain rfl := distanceBytes_injective (distance_bounded distant) (by decide) same
    rcases distance_eq_ok distant with ⟨-, apart⟩ | ⟨-, -, -, -, above, -⟩
    · refine Option.eq_none_iff_forall_ne_some.mpr fun uuid linked => ?_
      obtain ⟨target, next, at_target, rfl⟩ := exists_visited entered
        (List.mem_of_getElem? at_index) (List.mem_of_getElem? at_output) linked
      have found := find?_positions outlined entered.nodup_visited at_target
      exact apart _ linked _ (List.mem_of_find?_eq_some found) rfl
    · exact absurd above (lt_irrefl _)
  · intro none
    rw [none] at distant
    cases distant
    rfl

end Written

/-! Packing -/

variable {script : Script}

theorem value_packLogged (g : Graph) (script : Script) :
    (packLogged g script).value = (pack g script).map (·.1) := by
  rw [packLogged]
  cases pack g script <;> rfl

theorem pack_of_unnumbered {error : CompileError} (ordered : order g script.name = .ok visited)
    (failed : outlines g script.name 0 visited = .error error) : pack g script = .error error := by
  rw [pack, ordered]
  change (outlines g script.name 0 visited >>= _) = _
  rw [failed]
  rfl

/-- Where all nodes have records that the header can count, these decide. -/
theorem pack_of_outlines (ordered : order g script.name = .ok visited)
    (outlined : outlines g script.name 0 visited = .ok records) (few : records.length ≤ 65535) :
    pack g script = (recordsBytes script.name (positions headerLength records) headerLength records
      >>= fun body => pure (bigEndian 8 script.uuid.toNat ++ bigEndian 2 script.stackSize.toNat
        ++ bigEndian 2 records.length ++ body, records.length)) := by
  rw [pack, ordered]
  change (outlines g script.name 0 visited >>= _) = _
  rw [outlined]
  exact if_neg (Nat.not_lt.mpr few)

/-- Packing stops at the first record with a successor out of reach. -/
theorem pack_of_strays (entered : Preorder g [] [g.start.uuid] visited after)
    (ordered : order g script.name = .ok visited)
    (outlined : outlines g script.name 0 visited = .ok records) (few : records.length ≤ 65535)
    {index : Nat} {node : Node} (at_index : visited[index]? = some node)
    (strays : Strays g visited index) (least : ∀ earlier < index, ¬ Strays g visited earlier) :
    pack g script = .error (.packedOverflow script.name node.uuid .successorOffset) := by
  obtain ⟨data, -, record⟩ := (outlines_eq_ok outlined).2 index node at_index
  have failed := @recordsBytes_overflow script.name (positions headerLength records) _ _ _ _ record
    (fun fits => (fits_iff entered outlined record).mp fits strays)
    fun earlier other before found => (fits_iff entered outlined found).mpr (least earlier before)
  rw [pack_of_outlines ordered outlined few, failed]
  rfl

/-- Where no successor is out of reach, all records are written. -/
theorem pack_of_near (entered : Preorder g [] [g.start.uuid] visited after)
    (ordered : order g script.name = .ok visited)
    (outlined : outlines g script.name 0 visited = .ok records) (few : records.length ≤ 65535)
    (near : ∀ index, ¬ Strays g visited index) :
    ∃ header body, pack g script = .ok (header ++ body, records.length) ∧
      header.length = headerLength ∧
      recordsBytes script.name (positions headerLength records) headerLength records = .ok body := by
  obtain ⟨body, written⟩ : ∃ body, recordsBytes script.name (positions headerLength records)
      headerLength records = .ok body :=
    recordsBytes_success fun index record found => (fits_iff entered outlined found).mpr (near index)
  refine ⟨bigEndian 8 script.uuid.toNat ++ bigEndian 2 script.stackSize.toNat
    ++ bigEndian 2 records.length, body, ?_, by simp [headerLength], written⟩
  rw [pack_of_outlines ordered outlined few, written]
  rfl

/-- Packing an accepted graph fails exactly where the graph does not fit. The nodes that are reached
have their records in depth-first order. With more than 256 loops among them, packing fails at the
257th. Otherwise it fails at the first record with a successor out of reach, if there is one.
Otherwise it succeeds: the records stand one behind the other, and the distance that stands for none
is written for the outputs without a link alone. -/
theorem pack_fails_where_graph_does_not_fit {nodes : List Node} {links : List Link}
    (accepted : Graph.ofParts nodes links = .ok g)
    (countable : Set.ncard {uuid | g.Reaches g.start.uuid uuid} ≤ 65535) (script : Script) :
    ∃ visited after, Preorder g [] [g.start.uuid] visited after ∧
      let loops := visited.filter (·.type = .loop)
      let packed := (packLogged g script).value
      (256 < loops.length → ∃ node, loops[256]? = some node ∧
        packed = .error (.packedOverflow script.name node.uuid .counterSlot)) ∧
      (loops.length ≤ 256 → (∃ index, Strays g visited index) →
        ∃ index node, visited[index]? = some node ∧ Strays g visited index ∧
          (∀ earlier < index, ¬ Strays g visited earlier) ∧
          packed = .error (.packedOverflow script.name node.uuid .successorOffset)) ∧
      (loops.length ≤ 256 → (∀ index, ¬ Strays g visited index) →
        ∃ bytes, packed = .ok bytes ∧
          bytes.length = headerLength + (visited.map recordLength).sum ∧
          ∀ (index output : Nat) (node : Node) (pin : UInt16), visited[index]? = some node →
            node.type.logicOutputs[output]? = some pin →
              ((bytes.drop (placeOf visited index + 2 + 2 * output)).take 2 = [0x80, 0] ↔
                g.successor? node.uuid pin = none)) := by
  have formed := Graph.wellFormed_of_ofParts accepted
  obtain ⟨visited, after, ordered, entered⟩ := order_success formed script.name
  refine ⟨visited, after, entered, ?_⟩
  dsimp only
  rw [entered.ncard_reached] at countable
  rw [value_packLogged]
  have known (numbered : (visited.filter (·.type = .loop)).length ≤ 256) :
      ∃ records, outlines g script.name 0 visited = .ok records ∧ records.length ≤ 65535 := by
    rw [← List.countP_eq_length_filter] at numbered
    obtain ⟨records, outlined⟩ : ∃ records, outlines g script.name 0 visited = .ok records :=
      outlines_success (by rwa [Nat.zero_add])
    exact ⟨records, outlined, (outlines_eq_ok outlined).1 ▸ countable⟩
  refine ⟨fun many => ?_, fun numbered strays => ?_, fun numbered near => ?_⟩
  · have last := List.getElem?_eq_getElem many
    refine ⟨_, last, ?_⟩
    rw [pack_of_unnumbered ordered (outlines_overflow (Nat.zero_le _) last)]
    rfl
  · obtain ⟨records, outlined, few⟩ := known numbered
    obtain ⟨index, strayed, least⟩ : ∃ index, Strays g visited index ∧
        ∀ earlier < index, ¬ Strays g visited earlier := by
      classical
      exact ⟨Nat.find strays, Nat.find_spec strays, fun _ before => Nat.find_min strays before⟩
    have ⟨node, _, _, _, _, at_index, _⟩ := strayed
    refine ⟨index, node, at_index, strayed, least, ?_⟩
    rw [pack_of_strays entered ordered outlined few at_index strayed least]
    rfl
  · obtain ⟨records, outlined, few⟩ := known numbered
    obtain ⟨header, body, packed, length, written⟩ :=
      pack_of_near entered ordered outlined few near
    refine ⟨header ++ body, by rw [packed]; rfl, ?_, ?_⟩
    · rw [List.length_append, length, length_body outlined written]
    · intro index output node pin at_index at_output
      exact distance_unlinked_iff outlined length written at_index at_output entered

/-- The sample graph fits: its one loop has a number, and its records are within reach of each
other. The Delete Object node, which nothing follows, is written as unlinked. Of a row of 257 loops
the last one has no number left, and for Start the end of a row of 2731 Send Event nodes is one byte
out of reach. -/
theorem pack_fails_where_graph_does_not_fit_sample :
    let script : Script := ⟨9, "sample", "script", .empty, 4, ""⟩
    let loops := Graph.row (.loop 2) 257
    let events := Graph.row (.sendEvent 0 1 2) 2731
    (Graph.ofParts Graph.sample.nodes Graph.sample.links = .ok Graph.sample ∧
      Set.ncard {uuid | Graph.sample.Reaches Graph.sample.start.uuid uuid} ≤ 65535 ∧
      ∃ bytes, (packLogged Graph.sample script).value = .ok bytes ∧ bytes.length = 80 ∧
        (bytes.drop 64).take 2 = [0x80, 0]) ∧
    (Graph.ofParts loops.nodes loops.links = .ok loops ∧
      Set.ncard {uuid | loops.Reaches loops.start.uuid uuid} ≤ 65535 ∧
      (packLogged loops script).value = .error (.packedOverflow "sample" 257 .counterSlot)) ∧
    (Graph.ofParts events.nodes events.links = .ok events ∧
      Set.ncard {uuid | events.Reaches events.start.uuid uuid} ≤ 65535 ∧
      (packLogged events script).value = .error (.packedOverflow "sample" 0 .successorOffset)) := by
  intro script loops events
  refine ⟨?_, ?_, ?_⟩
  · have ordered : order Graph.sample "sample" =
        .ok ([1, 2, 3, 4, 6, 7, 8].filterMap Graph.sample.node?) := by decide +kernel
    obtain ⟨after, entered⟩ := order_preorder ordered
    have countable :
        Set.ncard {uuid | Graph.sample.Reaches Graph.sample.start.uuid uuid} ≤ 65535 := by
      rw [entered.ncard_reached]
      decide +kernel
    refine ⟨Graph.sample_accepted, countable, ?_⟩
    obtain ⟨visited, after', entered', -, -, fitting⟩ :=
      pack_fails_where_graph_does_not_fit Graph.sample_accepted countable script
    obtain ⟨rfl, -⟩ := entered'.unique entered
    obtain ⟨bytes, packed, length, unlinked⟩ :=
      fitting (by decide +kernel) (not_strays_of_short (by decide +kernel))
    exact ⟨bytes, packed, length.trans (by decide +kernel),
      (unlinked 5 0 ⟨7, .deleteObject 0, .origin⟩ 0 (by decide +kernel) rfl).mpr rfl⟩
  · have fits : 257 < UInt64.size := by decide
    have loop : (NodeKind.loop 2).type.inputs ≠ [] := by decide
    have accepted := Graph.row_accepted fits loop (by decide)
    have countable := Graph.ncard_row fits loop (by decide)
    obtain ⟨after, entered⟩ := Graph.preorder_row fits loop (by decide)
    obtain ⟨visited, after', entered', numbered, -, -⟩ :=
      pack_fails_where_graph_does_not_fit accepted (countable.trans_le (by decide)) script
    rw [(entered'.unique entered).1, loops_row, if_pos (by decide)] at numbered
    obtain ⟨node, last, failed⟩ := numbered (by rw [List.length_map, List.length_range']; decide)
    rw [List.getElem?_map, List.getElem?_range' (by decide)] at last
    obtain rfl := Option.some.inj last
    exact ⟨accepted, countable.trans_le (by decide), failed⟩
  · have fits : 2731 < UInt64.size := by decide
    have event : (NodeKind.sendEvent 0 1 2).type.inputs ≠ [] := by decide
    have accepted := Graph.row_accepted fits event (by decide)
    have countable := Graph.ncard_row fits event (by decide)
    obtain ⟨after, entered⟩ := Graph.preorder_row fits event (by decide)
    obtain ⟨visited, after', entered', -, distant, -⟩ :=
      pack_fails_where_graph_does_not_fit accepted (countable.trans_le (by decide)) script
    rw [(entered'.unique entered).1, loops_row, if_neg (by decide)] at distant
    have strays := @strays_row (.sendEvent 0 1 2) _ fits (by decide) (by decide)
    obtain ⟨index, node, at_index, -, least, failed⟩ := distant (by decide) ⟨0, strays⟩
    obtain rfl : index = 0 := Nat.eq_zero_of_not_pos fun later => least 0 later strays
    rw [Graph.getElem?_row (Nat.zero_le _)] at at_index
    obtain rfl := Option.some.inj at_index
    exact ⟨accepted, countable.trans_le (by decide), failed⟩

end Records

end Packed

end NodeScript
