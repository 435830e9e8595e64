import NodeScript.Proofs.Packed.Taking

/-!
What is accepted as a packed graph. Writing what was read gives back the bytes it was read from, up
to their end and but for the bytes that pad comparisons: distances lead to records, each record
stands where its offset says, and nothing but missing bytes makes a shorter beginning unreadable.
-/
namespace NodeScript.Packed

/-- A record of a type, with the distances of its outputs. -/
def recordForm (type : NodeType) (steps : List Int) (data : Payload) : List UInt8 :=
  let body := [type.id.toUInt8, steps.length.toUInt8] ++ steps.flatMap distanceBytes ++ data.toBytes
  body ++ List.replicate (body.length % 2) 0

/-- The distance from `offset` to a record, or the one that stands for none. -/
def stepsTo (nodes : List Unpacked) (offset : Nat) (next : Option Nat) : Int :=
  match next.bind (nodes[·]?) with
  | some target => target.offset - offset
  | none => unlinked

/-- The written form of a record, among all records of its graph. -/
def Unpacked.toBytes (nodes : List Unpacked) (record : Unpacked) : List UInt8 :=
  recordForm record.type (record.successors.map (stepsTo nodes record.offset)) record.payload

/-- The position of the byte that pads a comparison, if the record is one. -/
def Unpacked.padding (record : Unpacked) : List Nat :=
  record.payload.padding (record.offset + 2 + 2 * record.successors.length)

/-- The written form of a packed graph that was read: its header, and its records one after the
other. -/
def Blob.toBytes (blob : Blob) : List UInt8 :=
  bigEndian 8 blob.uuid.toNat ++ bigEndian 2 blob.stackSize.toNat
    ++ bigEndian 2 blob.nodes.length ++ blob.nodes.flatMap (Unpacked.toBytes blob.nodes)

/-- The positions of all bytes that pad comparisons. -/
def Blob.paddings (blob : Blob) : List Nat := blob.nodes.flatMap Unpacked.padding

/-! Records as they are read -/

theorem Payload.even_size (data : Payload) : data.size % 2 = 0 := by cases data <;> simp [size]

/-- Nothing is put behind a payload, since all lengths are even. -/
theorem recordForm_eq (type : NodeType) (steps : List Int) (data : Payload) :
    recordForm type steps data = [type.id.toUInt8] ++ ([steps.length.toUInt8]
      ++ (steps.flatMap distanceBytes ++ data.toBytes)) := by
  have even : ([type.id.toUInt8, steps.length.toUInt8] ++ steps.flatMap distanceBytes
      ++ data.toBytes).length % 2 = 0 := by
    have := data.even_size
    simp
    omega
  simp only [recordForm, even]
  simp

/-- The written form of a record as read. -/
def Record.toBytes (record : Record) : List UInt8 :=
  recordForm record.type record.distances record.payload

def Record.padding (record : Record) : List Nat :=
  record.payload.padding (record.offset + 2 + 2 * record.distances.length)

namespace Reader.Sound

variable {offset : Nat}

theorem record : Sound Reader.record offset fun bytes record =>
    record.offset = offset ∧ Agree record.padding offset record.toBytes bytes := by
  refine .get (fun _ => rfl) ((number 1 _).bind fun first tag ⟨tagged, _⟩ => ?_)
  cases known : NodeType.ofId? tag with
  | none => exact .fail _
  | some type =>
    refine (number 1 _).bind fun second count ⟨counted, _⟩ => ?_
    refine (distances count).bind fun third steps ⟨length, stepped⟩ => ?_
    refine (payload offset type).bind fun fourth data ⟨typed, agree⟩ => ?_
    have place : offset + first.length + second.length + third.length =
        offset + 2 + 2 * steps.length := by
      simp [tagged, counted, stepped]
      omega
    have even : ¬ (offset + first.length + second.length + third.length + fourth.length - offset) % 2
        = 1 := by
      have := data.even_size
      rw [place, agree.length, Payload.length_toBytes]
      omega
    refine .get (fun _ => rfl) ?_
    simp only [even, if_false]
    refine .pure ⟨rfl, ?_⟩
    have front : first = [type.id.toUInt8] ∧ second = [steps.length.toUInt8] := by
      rw [tagged, counted, length, NodeType.id_of_ofId? known]
      simp [bigEndian]
    obtain ⟨rfl, rfl⟩ := front
    rw [Record.toBytes, recordForm_eq, Record.padding, List.append_nil, ← stepped, ← place]
    exact .behind _ (.behind _ (.behind _ agree))

theorem records (count : Nat) : Sound (Reader.records count) offset fun bytes records =>
    records.length = count ∧
      Agree (records.flatMap Record.padding) offset (records.flatMap Record.toBytes) bytes := by
  induction count generalizing offset with
  | zero => exact .pure ⟨rfl, .refl offset []⟩
  | succ count ih =>
    refine record.bind fun taken first ⟨_, agree⟩ => ?_
    refine ih.bind fun others rest ⟨length, agree'⟩ => .pure ⟨congrArg (· + 1) length, ?_⟩
    rw [List.append_nil]
    exact agree.append (agree.length ▸ agree')

theorem contents : Sound Reader.contents 0 fun bytes (uuid, stackSize, records) =>
    Agree (records.flatMap Record.padding) 0 (bigEndian 8 uuid.toNat ++ (bigEndian 2 stackSize.toNat
      ++ (bigEndian 2 records.length ++ records.flatMap Record.toBytes))) bytes := by
  refine (number 8 _).bind fun first uuid ⟨identified, small⟩ => (word16 _).bind fun second size sized =>
    (number 2 _).bind fun third count ⟨counted, _⟩ =>
      (records count).bind fun body records ⟨length, agree⟩ => .pure ?_
  have header : bigEndian 8 uuid.toUInt64.toNat = first := by
    rw [identified, Nat.toUInt64, UInt64.toNat_ofNat_of_lt' small]
  dsimp only
  rw [header, ← sized, length, ← counted, List.append_nil]
  exact .behind _ (.behind _ (.behind _ agree))

end Reader.Sound

/-! Records with their successors -/

/-- The distance that is resolved is the one to the record that is found. -/
theorem resolve_eq_ok {starts : List Nat} {offset : Nat} {steps : Int} {next : Option Nat}
    (resolved : resolve starts offset steps = .ok next) :
    (next = none ∧ steps = unlinked) ∨ ∃ index start, next = some index ∧
      starts[index]? = some start ∧ steps = start - offset := by
  rw [resolve] at resolved
  split at resolved
  next none =>
    cases resolved
    exact .inl ⟨rfl, none⟩
  next =>
    simp only at resolved
    split at resolved
    next index found =>
      cases resolved
      obtain ⟨inside, same, -⟩ := List.findIdx?_eq_some_iff_getElem.mp found
      refine .inr ⟨index, _, rfl, List.getElem?_eq_getElem inside, ?_⟩
      have target : (starts[index] : Int) = offset + steps := by simpa using same
      omega
    next => cases resolved

variable {records : List Record} {nodes : List Unpacked}

theorem Record.unpack_eq_ok {starts : List Nat} {record : Record} {node : Unpacked}
    (unpacked : record.unpack starts = .ok node) :
    ∃ successors, List.Forall₂ (fun steps next => resolve starts record.offset steps = .ok next)
        record.distances successors ∧
      node = ⟨record.offset, record.type, successors, record.payload⟩ := by
  obtain ⟨successors, resolved, ⟨⟩⟩ := bind_eq_ok_iff.mp unpacked
  exact ⟨successors, mapM_eq_ok_iff.mp resolved, rfl⟩

/-- What the records of a packed graph become. -/
abbrev Unpacks (records : List Record) (nodes : List Unpacked) : Prop :=
  List.Forall₂ (fun record node => Record.unpack (records.map (·.offset)) record = .ok node)
    records nodes

theorem map_eq_map_of_forall₂ {α β γ : Type} {related : α → β → Prop} {items : List α}
    {results : List β} {f : α → γ} {h : β → γ} (all : List.Forall₂ related items results)
    (each : ∀ item result, related item result → f item = h result) :
    items.map f = results.map h := by
  induction all with
  | nil => rfl
  | cons first _ ih => rw [List.map_cons, List.map_cons, each _ _ first, ih]

namespace Unpacks

variable (all : Unpacks records nodes)

include all

theorem offsets : nodes.map (·.offset) = records.map (·.offset) := by
  refine (map_eq_map_of_forall₂ all fun record node unpacked => ?_).symm
  obtain ⟨successors, -, rfl⟩ := Record.unpack_eq_ok unpacked
  rfl

theorem paddings : nodes.flatMap Unpacked.padding = records.flatMap Record.padding := by
  rw [List.flatMap_def, List.flatMap_def]
  refine congrArg List.flatten (map_eq_map_of_forall₂ all fun record node unpacked => ?_).symm
  obtain ⟨successors, resolved, rfl⟩ := Record.unpack_eq_ok unpacked
  rw [Record.padding, Unpacked.padding, resolved.length_eq]

/-- Successors lead back to the distances they come from. -/
theorem toBytes : nodes.flatMap (Unpacked.toBytes nodes) = records.flatMap Record.toBytes := by
  rw [List.flatMap_def, List.flatMap_def]
  refine congrArg List.flatten (map_eq_map_of_forall₂ all fun record node unpacked => ?_).symm
  obtain ⟨successors, resolved, rfl⟩ := Record.unpack_eq_ok unpacked
  have steps : record.distances.map id = successors.map (stepsTo nodes record.offset) := by
    refine map_eq_map_of_forall₂ resolved fun steps next found => ?_
    rcases resolve_eq_ok found with ⟨rfl, none⟩ | ⟨index, start, rfl, at_index, rfl⟩
    · exact none
    · rw [← all.offsets, List.getElem?_map, Option.map_eq_some_iff] at at_index
      obtain ⟨target, at_index, rfl⟩ := at_index
      simp [stepsTo, at_index]
  rw [Record.toBytes, Unpacked.toBytes, ← steps, List.map_id]

theorem successor_lt {node : Unpacked} (member : node ∈ nodes) {index : Nat}
    (next : some index ∈ node.successors) : index < nodes.length := by
  obtain ⟨place, at_place⟩ := List.getElem?_of_mem member
  obtain ⟨record, -, unpacked⟩ := forall₂_getElem? all.flip at_place
  obtain ⟨successors, resolved, rfl⟩ := Record.unpack_eq_ok unpacked
  obtain ⟨pin, at_pin⟩ := List.getElem?_of_mem next
  obtain ⟨steps, -, found⟩ := forall₂_getElem? resolved.flip at_pin
  rcases resolve_eq_ok found with ⟨none, -⟩ | ⟨index, start, ⟨⟩, at_index, -⟩
  · cases none
  · rw [← all.offsets] at at_index
    simpa using (List.getElem?_eq_some_iff.mp at_index).1

end Unpacks

/-- What is read is the written form of the result, whatever comes behind it. Successors are
records of the graph. Written out again, the graph is no longer than the bytes it was read from and
the same, up to the bytes that pad comparisons. These bytes alone decide: with more or less behind
them the same is read, and without all of them something is found missing. -/
theorem unpack_reads_written_form {bytes : List UInt8} {blob : Blob}
    (read : unpack bytes = .ok blob) :
    (∀ record ∈ blob.nodes, ∀ index, some index ∈ record.successors → index < blob.nodes.length) ∧
      blob.toBytes.length ≤ bytes.length ∧
      (∀ position < blob.toBytes.length, position ∉ blob.paddings →
        blob.toBytes[position]? = bytes[position]?) ∧
      (∀ count, blob.toBytes.length ≤ count → unpack (bytes.take count) = .ok blob) ∧
      ∀ count < blob.toBytes.length, ∃ offset what,
        unpack (bytes.take count) = .error (.truncated offset what) := by
  obtain ⟨⟨⟨uuid, stackSize, records⟩, cursor⟩, contents, unpacked⟩ := bind_eq_ok_iff.mp read
  obtain ⟨nodes, success, ⟨⟩⟩ := bind_eq_ok_iff.mp unpacked
  have all : Unpacks records nodes := mapM_eq_ok_iff.mp success
  obtain ⟨taken, rfl, takes, agree⟩ := Reader.Sound.contents _ _ _ contents
  have written : Agree (Blob.paddings ⟨uuid, stackSize, nodes⟩) 0
      (Blob.toBytes ⟨uuid, stackSize, nodes⟩) taken := by
    dsimp only at agree
    rw [← all.toBytes, ← all.paddings, all.length_eq] at agree
    simpa only [Blob.toBytes, Blob.paddings, List.append_assoc] using agree
  have length := written.length
  refine ⟨fun record member index next => all.successor_lt member next, ?_,
    fun position inside tight => ?_, fun count enough => ?_, fun count short => ?_⟩
  · rw [List.length_append, length]
    exact Nat.le_add_right _ _
  · rw [List.getElem?_append_left (length ▸ inside)]
    exact (written.same position (by rwa [Nat.zero_add])).symm
  · rw [List.take_append, List.take_of_length_le (length ▸ enough), unpack]
    exact bind_eq_ok_iff.mpr ⟨_, takes.reads _, bind_eq_ok_iff.mpr ⟨nodes, success, rfl⟩⟩
  · have inside : (taken ++ cursor.rest).take count = taken.take count :=
      List.take_append_of_le_length (Nat.le_of_lt (length ▸ short))
    obtain ⟨position, what, missed⟩ := takes.misses (taken.take count) (List.take_prefix _ _)
      fun same => by
        have := congrArg List.length same
        rw [List.length_take, length] at this
        omega
    exact ⟨position, what, by rw [inside, unpack, StateT.run, missed]; rfl⟩

/-- A comparison with three outputs, one of them to itself, a number that leads back to it, and a
byte behind both. The byte that pads the comparison is not zero. -/
def crooked : List UInt8 :=
  [0, 0, 0, 0, 0, 0, 0, 0x42, 0, 5, 0, 2,
    4, 3, 0, 0, 0x80, 0, 0, 18, 2, 0xAB, 0xFF, 0xFF, 0xFF, 0xFF, 0, 0, 0, 1,
    5, 1, 0xFF, 0xEE, 0, 77,
    0xFF]

theorem unpack_reads_written_form_crooked :
    ∃ blob, unpack crooked = .ok blob ∧
      blob.nodes.map (·.successors) = [[some 0, none, some 1], [some 0]] ∧
      blob.toBytes.length = 36 ∧ blob.paddings = [21] ∧ blob.toBytes ≠ crooked.take 36 ∧
      (∀ position < 36, position ≠ 21 → blob.toBytes[position]? = crooked[position]?) ∧
      unpack (crooked.take 36) = .ok blob ∧
      ∀ count < 36, ∃ offset what, unpack (crooked.take count) = .error (.truncated offset what) := by
  obtain ⟨blob, read, successors, length, paddings, differs⟩ : ∃ blob, unpack crooked = .ok blob ∧
      blob.nodes.map (·.successors) = [[some 0, none, some 1], [some 0]] ∧
      blob.toBytes.length = 36 ∧ blob.paddings = [21] ∧ blob.toBytes ≠ crooked.take 36 :=
    ⟨(unpack crooked).toOption.getD ⟨0, 0, []⟩, by decide +kernel⟩
  obtain ⟨-, -, same, enough, short⟩ := unpack_reads_written_form read
  rw [length, paddings] at same
  refine ⟨blob, read, successors, length, paddings, differs, ?_, enough 36 (Nat.le_of_eq length), ?_⟩
  · exact fun position inside tight => same position inside (mt List.mem_singleton.mp tight)
  · exact fun count inside => short count (length ▸ inside)

end NodeScript.Packed
