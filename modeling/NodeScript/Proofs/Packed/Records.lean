import Mathlib.Data.List.Forall2
import NodeScript.Proofs.Graph.Preorder
import NodeScript.Proofs.Packed.Fields

/-!
Records of a packed graph: their order, what each is made of, where each starts, and that each is
read back where it was written.
-/
namespace NodeScript

theorem bind_eq_ok_iff {ε α β : Type} {first : Except ε α} {next : α → Except ε β} {result : β} :
    (first >>= next) = .ok result ↔ ∃ value, first = .ok value ∧ next value = .ok result := by
  cases first <;> simp [bind, Except.bind]

/-- A traversal succeeds if it does at each item. -/
theorem mapM_eq_ok_iff {ε α β : Type} {f : α → Except ε β} {items : List α} {results : List β} :
    items.mapM f = .ok results ↔ List.Forall₂ (fun item result => f item = .ok result) items results
    := by
  induction items generalizing results with
  | nil => cases results <;> simp [pure, Except.pure]
  | cons item rest ih =>
    simp only [List.mapM_cons, bind_eq_ok_iff, ih, List.forall₂_cons_left_iff]
    constructor
    · rintro ⟨result, first, others, rest, ⟨⟩⟩
      exact ⟨result, others, first, rest, rfl⟩
    · rintro ⟨result, others, first, rest, rfl⟩
      exact ⟨result, first, others, rest, rfl⟩

theorem mapM_success {ε α β : Type} {f : α → Except ε β} {items : List α}
    (each : ∀ item ∈ items, ∃ result, f item = .ok result) :
    ∃ results, items.mapM f = .ok results := by
  simp only [mapM_eq_ok_iff]
  induction items with
  | nil => exact ⟨[], .nil⟩
  | cons item rest ih =>
    obtain ⟨⟨result, first⟩, each⟩ := List.forall_mem_cons.mp each
    obtain ⟨results, others⟩ := ih each
    exact ⟨result :: results, .cons first others⟩

theorem forall₂_getElem? {α β : Type} {related : α → β → Prop} {items : List α} {results : List β}
    (all : List.Forall₂ related items results) {index : Nat} {item : α}
    (at_index : items[index]? = some item) :
    ∃ result, results[index]? = some result ∧ related item result := by
  induction all generalizing index with
  | nil => cases at_index
  | cons first _ ih =>
    cases index with
    | zero =>
      cases at_index
      exact ⟨_, rfl, first⟩
    | succ index => exact ih at_index

/-- What all items of a list tell of the items of another of the same length. -/
theorem map_eq_map_of_getElem? {α β γ : Type} {items : List α} {others : List β} {f : α → γ}
    {h : β → γ} (length : items.length = others.length)
    (each : ∀ (index : Nat) (other : β), others[index]? = some other →
      items[index]?.map f = some (h other)) : items.map f = others.map h := by
  refine List.ext_getElem? fun index => ?_
  rw [List.getElem?_map, List.getElem?_map]
  cases at_index : others[index]? with
  | none =>
    rw [List.getElem?_eq_none (length ▸ List.getElem?_eq_none_iff.mp at_index)]
    rfl
  | some other => exact each index other at_index

namespace Packed

variable {g : Graph} {asset : String}

/-! The order -/

theorem targets_length_le (g : Graph) (node : Node) : (g.targets node).length ≤ 3 := by
  have pins : node.type.logicOutputs.length ≤ 3 := by cases node.type <;> decide
  exact Nat.le_trans (List.length_filterMap_le _ _) pins

/-- The stack of the search holds what is pending. Every visit takes one node from it, and puts at
most three there for a node that is new, so that the bound on visits is never met. -/
theorem walk_preorder {visits : Nat} {pending : List (Uuid × Uuid)} {seen : List Uuid}
    {nodes : List Node} (walked : walk g asset visits pending seen = .ok nodes)
    (distinct : seen.Nodup) (known : seen ⊆ g.nodes.map (·.uuid))
    (enough : pending.length + 3 * (g.nodes.length - seen.length) ≤ visits) :
    ∃ after, Preorder g seen (pending.map Prod.fst) nodes after := by
  induction visits generalizing pending seen nodes with
  | zero =>
    obtain rfl := List.length_eq_zero_iff.mp (Nat.eq_zero_of_add_eq_zero (Nat.le_zero.mp enough)).1
    cases walked
    exact ⟨seen, .done seen⟩
  | succ visits ih =>
    match pending with
    | [] =>
      cases walked
      exact ⟨seen, .done seen⟩
    | (uuid, source) :: pending =>
      rw [List.length_cons] at enough
      rw [walk] at walked
      split at walked
      · next old =>
        obtain ⟨after, entered⟩ := ih walked distinct known (by omega)
        exact ⟨after, .again old entered⟩
      · next fresh =>
        cases found : g.node? uuid with
        | none => simp [found] at walked
        | some node =>
          obtain ⟨member, rfl⟩ := Graph.node?_eq_some found
          have distinct' : (node.uuid :: seen).Nodup := List.nodup_cons.mpr ⟨fresh, distinct⟩
          have known' : node.uuid :: seen ⊆ g.nodes.map (·.uuid) :=
            List.cons_subset.mpr ⟨List.mem_map_of_mem member, known⟩
          have room := distinct'.length_le_of_subset known'
          rw [List.length_map, List.length_cons] at room
          have targets : (successors g node).filterMap id = g.targets node :=
            List.filterMap_map
          simp only [found, targets] at walked
          obtain ⟨others, rest, ⟨⟩⟩ := bind_eq_ok_iff.mp walked
          obtain ⟨after, entered⟩ := ih rest distinct' known' (by
            have := targets_length_le g node
            simp only [List.length_append, List.length_map, List.length_cons]
            omega)
          have roots : ((g.targets node).map (fun target => (target, node.uuid)) ++ pending).map
              Prod.fst = g.targets node ++ pending.map Prod.fst := by simp [Function.comp_def]
          obtain ⟨below, later, middle, rfl, inside, outside⟩ := (roots ▸ entered).split
          exact ⟨after, .enter fresh found inside outside⟩

theorem order_preorder {nodes : List Node} (ordered : order g asset = .ok nodes) :
    ∃ after, Preorder g [] [g.start.uuid] nodes after :=
  walk_preorder ordered List.nodup_nil (List.nil_subset _) (by simp; omega)

/-! The records -/

/-- What each record is made of. A loop's counter is numbered by the loops before it. -/
theorem outlines_eq_ok {loops : Nat} {nodes : List Node} {records : List Outline}
    (outlined : outlines g asset loops nodes = .ok records) :
    records.length = nodes.length ∧ ∀ (index : Nat) (node : Node), nodes[index]? = some node →
      ∃ data, payload g asset (loops + (nodes.take index).countP (·.type = .loop)) node = .ok data ∧
        records[index]? = some ⟨node.uuid, node.type, successors g node, data⟩ := by
  induction nodes generalizing loops records with
  | nil =>
    cases outlined
    simp
  | cons first rest ih =>
    simp only [outlines, bind_eq_ok_iff] at outlined
    obtain ⟨content, data, found, others, ⟨⟩⟩ := outlined
    obtain ⟨length, each⟩ := ih others
    refine ⟨congrArg (· + 1) length, fun index node at_index => ?_⟩
    cases index with
    | zero =>
      cases at_index
      exact ⟨content, data, rfl⟩
    | succ index =>
      obtain ⟨content', data', record⟩ := each index node at_index
      refine ⟨content', ?_, record⟩
      rw [List.take_succ_cons, List.countP_cons]
      split at data'
      · next loop => simpa [loop, Nat.add_assoc, Nat.add_comm 1] using data'
      · next other => simpa [other] using data'

/-- Where a record starts if the first one starts at `position`. -/
def startOf (position : Nat) (records : List Outline) (index : Nat) : Nat :=
  position + ((records.take index).map Outline.length).sum

theorem startOf_cons (position : Nat) (record : Outline) (rest : List Outline) (index : Nat) :
    startOf position (record :: rest) (index + 1) = startOf (position + record.length) rest index
    := by
  simp [startOf, Nat.add_assoc]

theorem getElem?_positions (position : Nat) (records : List Outline) (index : Nat) :
    (positions position records)[index]? =
      records[index]?.map fun record => (record.node, startOf position records index) := by
  induction records generalizing position index with
  | nil => rfl
  | cons record rest ih =>
    cases index with
    | zero => simp [positions, startOf]
    | succ index => simpa [positions, startOf_cons] using ih (position + record.length) index

theorem length_positions (position : Nat) (records : List Outline) :
    (positions position records).length = records.length := by
  induction records generalizing position with
  | nil => rfl
  | cons record rest ih => exact congrArg (· + 1) (ih _)

theorem length_pos (record : Outline) : 0 < record.length := by
  simp only [Outline.length]
  omega

/-- Records start one behind the other. -/
theorem pairwise_positions (position : Nat) (records : List Outline) :
    (positions position records).Pairwise (fun earlier later => earlier.2 < later.2) ∧
      ∀ place ∈ positions position records, position ≤ place.2 := by
  induction records generalizing position with
  | nil => simp [positions]
  | cons record rest ih =>
    obtain ⟨ordered, bounded⟩ := ih (position + record.length)
    have := length_pos record
    simp only [positions, List.pairwise_cons, List.forall_mem_cons]
    exact ⟨⟨fun place member => by have := bounded place member; omega, ordered⟩, Nat.le_refl _,
      fun place member => by have := bounded place member; omega⟩

/-! Writing and reading -/

/-- The distance that is written for an output: to a record, or the one that stands for none. -/
theorem distance_eq_ok {places : List (Uuid × Nat)} {node : Uuid} {position : Nat}
    {target : Option Uuid} {steps : Int}
    (measured : distance asset places node position target = .ok steps) :
    (steps = unlinked ∧ ∀ uuid ∈ target, ∀ place ∈ places, place.1 ≠ uuid) ∨
      ∃ place ∈ places, target = some place.1 ∧ steps = place.2 - position ∧ unlinked < steps ∧
        steps < 32768 := by
  cases target with
  | none =>
    cases measured
    exact .inl ⟨rfl, by simp⟩
  | some uuid =>
    simp only [distance] at measured
    cases found : places.find? fun place => place.1 == uuid with
    | none =>
      rw [found] at measured
      cases measured
      exact .inl ⟨rfl, by simpa using found⟩
    | some place =>
      have same : place.1 = uuid := by simpa using List.find?_some found
      rw [found] at measured
      dsimp only at measured
      split at measured
      · next inside =>
        cases measured
        exact .inr ⟨place, List.mem_of_find?_eq_some found, by rw [same], rfl, inside⟩
      · cases measured

theorem distance_bounded {places : List (Uuid × Nat)} {node : Uuid} {position : Nat}
    {target : Option Uuid} {steps : Int}
    (measured : distance asset places node position target = .ok steps) :
    -32768 ≤ steps ∧ steps < 32768 := by
  obtain ⟨rfl, -⟩ | ⟨-, -, -, -, low, high⟩ := distance_eq_ok measured
  · decide
  · exact ⟨Int.le_of_lt low, high⟩

/-- The distances that are written for the outputs of a node. -/
abbrev Distances (asset : String) (places : List (Uuid × Nat)) (node : Uuid) (position : Nat) :
    List (Option Uuid) → List Int → Prop :=
  List.Forall₂ fun target steps => distance asset places node position target = .ok steps

theorem Distances.bounded {places : List (Uuid × Nat)} {node : Uuid} {position : Nat}
    {targets : List (Option Uuid)} {steps : List Int}
    (measured : Distances asset places node position targets steps) :
    ∀ step ∈ steps, -32768 ≤ step ∧ step < 32768 := by
  induction measured with
  | nil => simp
  | cons first _ ih => exact List.forall_mem_cons.mpr ⟨distance_bounded first, ih⟩

theorem recordBytes_eq_ok {places : List (Uuid × Nat)} {position : Nat} {record : Outline}
    {bytes : List UInt8} (written : recordBytes asset places position record = .ok bytes) :
    ∃ steps, Distances asset places record.node position record.successors steps ∧
      bytes = [record.type.id.toUInt8] ++ ([record.successors.length.toUInt8]
        ++ (steps.flatMap distanceBytes
        ++ (record.payload.toBytes ++ List.replicate (record.payload.size % 2) 0))) := by
  simp only [recordBytes, bind_eq_ok_iff] at written
  obtain ⟨steps, measured, ⟨⟩⟩ := written
  refine ⟨steps, mapM_eq_ok_iff.mp measured, ?_⟩
  have even : (2 * steps.length + record.payload.size + 1 + 1) % 2 = record.payload.size % 2 := by
    omega
  simp [even, Nat.mul_comm steps.length]

namespace Reader.Reads

/-- The number of bytes before the payload is even, and so is that of the whole record. -/
theorem record {places : List (Uuid × Nat)} {position : Nat} {record : Outline}
    {bytes : List UInt8} (typed : record.payload.type = record.type)
    (few : record.successors.length < 256)
    (written : recordBytes asset places position record = .ok bytes) :
    bytes.length = record.length ∧
      ∃ steps, Distances asset places record.node position record.successors steps ∧
        Reads Reader.record position bytes ⟨position, record.type, steps, record.payload⟩ := by
  obtain ⟨steps, measured, rfl⟩ := recordBytes_eq_ok written
  have count : record.successors.length = steps.length := measured.length_eq
  refine ⟨?_, steps, measured, ?_⟩
  · simp [Outline.length, count]
    omega
  · rw [count] at few ⊢
    have tag : Reads (Reader.number 1 "record type") position [record.type.id.toUInt8]
        record.type.id := by
      have small : record.type.id < 256 ^ 1 := by cases record.type <;> decide
      simpa [bigEndian] using number position 1 small "record type"
    have outputs : Reads (Reader.number 1 "output count") (position + 1)
        [steps.length.toUInt8] steps.length := by
      simpa [bigEndian] using number (position + 1) 1 few "output count"
    refine Reads.get fun _ => tag.bind ?_
    simp only [NodeType.ofId?_id]
    refine outputs.bind ((distances measured.bounded).bind ?_)
    rw [← typed]
    refine (payload position record.payload).bind ?_
    have parity : (position + 1 + [steps.length.toUInt8].length
        + (steps.flatMap distanceBytes).length + record.payload.toBytes.length - position) % 2
        = record.payload.size % 2 := by
      simp
      omega
    refine Reads.get fun _ => ?_
    rw [parity]
    rcases Nat.mod_two_eq_zero_or_one record.payload.size with even | odd
    · rw [even]
      exact .pure _
    · rw [odd]
      exact (word8 0 "padding").map fun _ => _

/-- Records are read where they are written: each behind those before it. -/
theorem records {places : List (Uuid × Nat)} {position : Nat} {records : List Outline}
    {bytes : List UInt8}
    (sound : ∀ record ∈ records, record.payload.type = record.type ∧ record.successors.length < 256)
    (written : recordsBytes asset places position records = .ok bytes) :
    bytes.length = (records.map Outline.length).sum ∧ ∃ reads : List Record,
      Reads (Reader.records records.length) position bytes reads ∧ reads.length = records.length ∧
      ∀ (index : Nat) (record : Outline), records[index]? = some record →
        ∃ steps, Distances asset places record.node (startOf position records index)
            record.successors steps ∧
          reads[index]? =
            some ⟨startOf position records index, record.type, steps, record.payload⟩ := by
  induction records generalizing position bytes with
  | nil =>
    cases written
    exact ⟨rfl, [], .pure [], rfl, by simp⟩
  | cons first rest ih =>
    obtain ⟨⟨typed, few⟩, sound⟩ := List.forall_mem_cons.mp sound
    simp only [recordsBytes, bind_eq_ok_iff] at written
    obtain ⟨firstBytes, firstWritten, restBytes, restWritten, ⟨⟩⟩ := written
    obtain ⟨length, steps, measured, firstReads⟩ := record typed few firstWritten
    obtain ⟨restLength, reads, restReads, count, each⟩ := ih sound restWritten
    rw [← length] at restReads
    refine ⟨by simp [length, restLength], _ :: reads, firstReads.bind (restReads.map _),
      congrArg (· + 1) count, fun index record at_index => ?_⟩
    cases index with
    | zero =>
      cases at_index
      exact ⟨steps, by simpa [startOf] using measured, by simp [startOf]⟩
    | succ index =>
      rw [startOf_cons]
      exact each index record at_index

end Reader.Reads

end Packed

end NodeScript
