import NodeScript.Proofs.Packed.Records

/-!
Reading undoes packing. What was packed is read without error, and the records that are read tell of
the nodes that are reached from Start what the graph says of them, less what does not fit.
-/
namespace NodeScript

/-- The number of the Value node that the first link into an input comes from. -/
def Graph.linkedValue? (g : Graph) (node : Uuid) (pin : UInt16) : Option UInt16 := do
  let link ← g.linkInto? node pin
  let source ← g.node? link.fromNode
  match source.kind with
  | .value number => some number
  | _ => none

namespace Packed

variable {g : Graph} {asset : String}

/-- What a payload tells of the kind of its node. Numbers that do not fit are replaced by the
greatest that does, and only numbers of Value nodes are known. -/
inductive Payload.Tells (g : Graph) (uuid : Uuid) (loops : Nat) : NodeKind → Payload → Prop
  | start : Tells g uuid loops .start .start
  | wait {time : Binary32} {millis : UInt16}
      (pause : millis.toNat = min (waitMillis time).toNat 65535) :
      Tells g uuid loops (.wait time) (.wait millis)
  | deleteObject (object : UInt16) : Tells g uuid loops (.deleteObject object) (.deleteObject object)
  | sendEvent (object eventType : UInt16) (value : UInt32) :
      Tells g uuid loops (.sendEvent object eventType value) (.sendEvent object eventType value)
  | compare {a b : Int32} (op : CompareOp)
      (left : a.toInt = (g.linkedValue? uuid 1).elim 0 fun number => (number.toNat : Int))
      (right : b.toInt = (g.linkedValue? uuid 2).elim 0 fun number => (number.toNat : Int)) :
      Tells g uuid loops (.compare op) (.compare op a b)
  | value (number : UInt16) : Tells g uuid loops (.value number) (.value number)
  | loop {count : UInt32} {slot : UInt8} {rounds : UInt8} (numbered : slot.toNat = loops)
      (bound : rounds.toNat = min count.toNat 255) :
      Tells g uuid loops (.loop count) (.loop slot rounds)
  | function (name : String) (argument : UInt32) :
      Tells g uuid loops (.function name argument) (.function (crc32 name) argument)

theorem toInt_constantInput (g : Graph) (node : Uuid) (pin : UInt16) :
    (constantInput g node pin).toInt =
      (g.linkedValue? node pin).elim 0 fun number => (number.toNat : Int) := by
  unfold constantInput Graph.linkedValue?
  cases g.linkInto? node pin with
  | none => rfl
  | some link =>
    cases found : g.node? link.fromNode with
    | none => simp [found]
    | some source =>
      simp only [Option.bind_eq_bind, Option.bind_some, found]
      cases source.kind with
      | value number =>
        have small := number.toNat_lt
        simp only [Option.elim_some]
        rw [Int32.toInt_ofNat_of_lt (by omega)]
      | _ => rfl

theorem payload_tells {loops : Nat} {node : Node} {data : Payload}
    (packed : payload g asset loops node = .ok data) :
    data.Tells g node.uuid loops node.kind ∧ data.type = node.type := by
  unfold payload at packed
  unfold Node.type
  cases kind : node.kind with
  | start =>
    simp only [kind, Except.ok.injEq] at packed
    exact packed ▸ ⟨.start, rfl⟩
  | wait time =>
    simp only [kind, Except.ok.injEq] at packed
    exact packed ▸ ⟨.wait (UInt16.toNat_ofNat_of_lt' (Nat.lt_succ_of_le (Nat.min_le_right _ _))), rfl⟩
  | deleteObject object =>
    simp only [kind, Except.ok.injEq] at packed
    exact packed ▸ ⟨.deleteObject object, rfl⟩
  | sendEvent object eventType value =>
    simp only [kind, Except.ok.injEq] at packed
    exact packed ▸ ⟨.sendEvent object eventType value, rfl⟩
  | compare op =>
    simp only [kind, Except.ok.injEq] at packed
    exact packed ▸ ⟨.compare op (toInt_constantInput g _ 1) (toInt_constantInput g _ 2), rfl⟩
  | value number =>
    simp only [kind, Except.ok.injEq] at packed
    exact packed ▸ ⟨.value number, rfl⟩
  | loop count =>
    simp only [kind] at packed
    split at packed
    · next few =>
      cases packed
      exact ⟨.loop (UInt8.toNat_ofNat_of_lt' few)
        (UInt8.toNat_ofNat_of_lt' (Nat.lt_succ_of_le (Nat.min_le_right _ _))), rfl⟩
    · cases packed
  | function name argument =>
    simp only [kind, Except.ok.injEq] at packed
    exact packed ▸ ⟨.function name argument, rfl⟩

/-! Distances -/

/-- What is read for an output, given what it leads to: the index of the record of that node. -/
inductive PointsTo (nodes : List Node) : Option Uuid → Option Nat → Prop
  | unlinked : PointsTo nodes none none
  | linked {node : Node} {index : Nat} (at_index : nodes[index]? = some node) :
      PointsTo nodes (some node.uuid) (some index)

theorem findIdx?_start {starts : List Nat} (ordered : starts.Pairwise (· < ·)) {index start : Nat}
    (at_index : starts[index]? = some start) :
    (starts.findIdx? fun other => Int.ofNat other == (start : Int)) = some index := by
  obtain ⟨inside, rfl⟩ := List.getElem?_eq_some_iff.mp at_index
  refine List.findIdx?_eq_some_iff_getElem.mpr ⟨inside, by simp, fun earlier before => ?_⟩
  have := List.pairwise_iff_getElem.mp ordered earlier index (Nat.lt_trans before inside) inside before
  simp
  omega

/-- The distance that is written for an output is resolved to the record that the output leads to.
All nodes that are led to have records, so only an output without a link has no distance. -/
theorem resolve_distance {nodes : List Node} {records : List Outline}
    (order : records.map (·.node) = nodes.map (·.uuid)) {node : Uuid} {position : Nat}
    {target : Option Uuid} (present : ∀ uuid ∈ target, uuid ∈ nodes.map (·.uuid)) {steps : Int}
    (measured : distance asset (positions headerLength records) node position target = .ok steps) :
    ∃ index, resolve ((positions headerLength records).map (·.2)) position steps = .ok index ∧
      PointsTo nodes target index := by
  have ordered := List.pairwise_map.mpr (pairwise_positions headerLength records).1
  obtain ⟨rfl, apart⟩ | ⟨place, member, rfl, rfl, linked, -⟩ := distance_eq_ok measured
  · cases target with
    | none => exact ⟨none, rfl, .unlinked⟩
    | some uuid =>
      -- The place of that node would have been found.
      obtain ⟨record, member, same⟩ := List.mem_map.mp (order ▸ present uuid rfl)
      obtain ⟨index, inside, rfl⟩ := List.mem_iff_getElem.mp member
      have place := getElem?_positions headerLength records index
      rw [List.getElem?_eq_getElem inside] at place
      exact absurd same (apart uuid rfl _ (List.mem_of_getElem? place))
  · obtain ⟨index, at_index⟩ := List.mem_iff_getElem?.mp member
    have start : ((positions headerLength records).map (·.2))[index]? = some place.2 := by
      simp [at_index]
    have found := findIdx?_start ordered start
    refine ⟨some index, ?_, ?_⟩
    · have target : (position : Int) + (place.2 - position) = place.2 := by omega
      simp only [resolve, target, found]
      exact if_neg (Int.ne_of_gt linked)
    · rw [getElem?_positions, Option.map_eq_some_iff] at at_index
      obtain ⟨record, at_index, rfl⟩ := at_index
      have same : (nodes.map (·.uuid))[index]? = some record.node := by
        rw [← order, List.getElem?_map, at_index, Option.map_some]
      rw [List.getElem?_map, Option.map_eq_some_iff] at same
      obtain ⟨found, at_index, same⟩ := same
      exact same ▸ .linked at_index

theorem resolve_distances {nodes : List Node} {records : List Outline}
    (order : records.map (·.node) = nodes.map (·.uuid)) {node : Uuid} {position : Nat}
    {targets : List (Option Uuid)}
    (present : ∀ target ∈ targets, ∀ uuid ∈ target, uuid ∈ nodes.map (·.uuid)) {steps : List Int}
    (measured : Distances asset (positions headerLength records) node position targets steps) :
    ∃ indices, steps.mapM (resolve ((positions headerLength records).map (·.2)) position)
        = .ok indices ∧ List.Forall₂ (PointsTo nodes) targets indices := by
  simp only [mapM_eq_ok_iff]
  induction measured with
  | nil => exact ⟨[], .nil, .nil⟩
  | cons first _ ih =>
    obtain ⟨presentFirst, presentRest⟩ := List.forall_mem_cons.mp present
    obtain ⟨index, resolved, points⟩ := resolve_distance order presentFirst first
    obtain ⟨indices, others, pointsRest⟩ := ih presentRest
    exact ⟨index :: indices, .cons resolved others, .cons points pointsRest⟩

/-! Records -/

/-- The number of bytes that a record takes. -/
def Unpacked.length (record : Unpacked) : Nat :=
  let plain := 2 + 2 * record.successors.length + record.payload.toBytes.length
  plain + plain % 2

/-- What the record at an index tells of the node at that index. -/
structure Describes (g : Graph) (nodes : List Node) (records : List Unpacked) (index : Nat)
    (node : Node) (record : Unpacked) : Prop where
  type : record.type = node.type
  payload : record.payload.Tells g node.uuid ((nodes.take index).countP (·.type = .loop)) node.kind
  successors : List.Forall₂ (PointsTo nodes)
    (node.type.logicOutputs.map fun pin => g.successor? node.uuid pin) record.successors
  offset : record.offset = headerLength + ((records.take index).map Unpacked.length).sum

variable {script : Script} {bytes : List UInt8} {count : Nat}

theorem pack_eq_ok (packed : pack g script = .ok (bytes, count)) :
    ∃ nodes records body, order g script.name = .ok nodes ∧
      outlines g script.name 0 nodes = .ok records ∧ records.length ≤ 65535 ∧
      recordsBytes script.name (positions headerLength records) headerLength records = .ok body ∧
      bytes = bigEndian 8 script.uuid.toNat ++ (bigEndian 2 script.stackSize.toNat
        ++ (bigEndian 2 records.length ++ body)) := by
  simp only [pack, bind_eq_ok_iff] at packed
  obtain ⟨nodes, ordered, records, outlined, packed⟩ := packed
  split at packed
  · cases packed
  · next few =>
    obtain ⟨body, written, ⟨⟩⟩ := bind_eq_ok_iff.mp packed
    exact ⟨nodes, records, body, ordered, outlined, by omega, written, by simp⟩

/-- What an outline says is in the record that is read. -/
theorem records_unpacked {nodes : List Node} {records : List Outline} {body : List UInt8}
    (order : records.map (·.node) = nodes.map (·.uuid))
    (sound : ∀ record ∈ records, record.payload.type = record.type ∧ record.successors.length < 256)
    (present : ∀ record ∈ records, ∀ target ∈ record.successors, ∀ uuid ∈ target,
      uuid ∈ nodes.map (·.uuid))
    (written : recordsBytes asset (positions headerLength records) headerLength records
      = .ok body) :
    ∃ reads unpacked, Reader.Reads (Reader.records records.length) headerLength body reads ∧
      reads.mapM (Record.unpack (reads.map (·.offset))) = .ok unpacked ∧
      unpacked.length = records.length ∧
      ∀ (index : Nat) (record : Outline), records[index]? = some record →
        ∃ indices, List.Forall₂ (PointsTo nodes) record.successors indices ∧
          unpacked[index]? =
            some ⟨startOf headerLength records index, record.type, indices, record.payload⟩ := by
  obtain ⟨-, reads, taken, length, each⟩ := Reader.Reads.records sound written
  have starts : reads.map (·.offset) = (positions headerLength records).map (·.2) := by
    refine map_eq_map_of_getElem? (length.trans (length_positions _ _).symm) ?_
    intro index place at_index
    rw [getElem?_positions, Option.map_eq_some_iff] at at_index
    obtain ⟨record, at_index, rfl⟩ := at_index
    obtain ⟨steps, -, read⟩ := each index record at_index
    rw [read]
    rfl
  have resolved (index : Nat) (record : Outline) (at_index : records[index]? = some record) :
      ∃ read indices, reads[index]? = some read ∧
        Record.unpack (reads.map (·.offset)) read =
          .ok ⟨startOf headerLength records index, record.type, indices, record.payload⟩ ∧
        List.Forall₂ (PointsTo nodes) record.successors indices := by
    obtain ⟨steps, measured, read⟩ := each index record at_index
    obtain ⟨indices, resolved, points⟩ :=
      resolve_distances order (present record (List.mem_of_getElem? at_index)) measured
    refine ⟨_, indices, read, ?_, points⟩
    rw [Record.unpack, starts]
    exact bind_eq_ok_iff.mpr ⟨indices, resolved, rfl⟩
  obtain ⟨unpacked, success⟩ : ∃ unpacked,
      reads.mapM (Record.unpack (reads.map (·.offset))) = .ok unpacked := by
    refine mapM_success fun read member => ?_
    obtain ⟨index, inside, rfl⟩ := List.mem_iff_getElem.mp member
    obtain ⟨read, indices, at_index, unpacked, -⟩ :=
      resolved index _ (List.getElem?_eq_getElem (length ▸ inside))
    rw [List.getElem?_eq_getElem inside] at at_index
    exact ⟨_, Option.some.inj at_index ▸ unpacked⟩
  have all := mapM_eq_ok_iff.mp success
  refine ⟨reads, unpacked, taken, success, all.length_eq.symm.trans length, ?_⟩
  intro index record at_index
  obtain ⟨read, indices, at_index, unpacks, points⟩ := resolved index record at_index
  obtain ⟨record', at_index', unpacks'⟩ := forall₂_getElem? all at_index
  exact ⟨indices, points, at_index'.trans
    (congrArg some (Except.ok.inj (unpacks'.symm.trans unpacks)))⟩

theorem contents_reads (script : Script) {count : Nat} {body : List UInt8} {reads : List Record}
    (few : count < 65536) (taken : Reader.Reads (Reader.records count) headerLength body reads) :
    Reader.Reads Reader.contents 0 (bigEndian 8 script.uuid.toNat
      ++ (bigEndian 2 script.stackSize.toNat ++ (bigEndian 2 count ++ body)))
      (script.uuid, script.stackSize, reads) := by
  have place : 0 + (bigEndian 8 script.uuid.toNat).length
      + (bigEndian 2 script.stackSize.toNat).length + (bigEndian 2 count).length = headerLength := by
    simp [headerLength]
  have uuid : script.uuid.toNat.toUInt64 = script.uuid := UInt64.ofNat_toNat
  have last := (place ▸ taken).map fun reads => (script.uuid.toNat.toUInt64, script.stackSize, reads)
  have all : Reader.Reads Reader.contents 0 _ _ :=
    (Reader.Reads.number 0 8 script.uuid.toNat_lt _).bind
      ((Reader.Reads.word16 script.stackSize _).bind ((Reader.Reads.number _ 2 few _).bind last))
  rwa [uuid] at all

theorem outlines_order {nodes : List Node} {records : List Outline}
    (outlined : outlines g asset 0 nodes = .ok records) :
    records.map (·.node) = nodes.map (·.uuid) := by
  obtain ⟨length, each⟩ := outlines_eq_ok outlined
  refine map_eq_map_of_getElem? length fun index node at_index => ?_
  obtain ⟨data, -, record⟩ := each index node at_index
  rw [record]
  rfl

theorem outlines_sound {nodes : List Node} {records : List Outline}
    (outlined : outlines g asset 0 nodes = .ok records) :
    ∀ record ∈ records, ∃ node ∈ nodes, record.successors = successors g node ∧
      record.payload.type = record.type ∧ record.successors.length < 256 := by
  obtain ⟨length, each⟩ := outlines_eq_ok outlined
  intro record member
  obtain ⟨index, inside, rfl⟩ := List.mem_iff_getElem.mp member
  obtain ⟨data, packed, record⟩ := each index _ (List.getElem?_eq_getElem (length ▸ inside))
  rw [List.getElem?_eq_getElem inside, Option.some.injEq] at record
  rw [record]
  refine ⟨_, List.getElem_mem _, rfl, (payload_tells packed).2, ?_⟩
  rw [successors, List.length_map]
  generalize nodes[index].type = type
  cases type <;> decide

/-- What was packed is read, and every record describes its node. -/
theorem unpack_of_pack (packed : pack g script = .ok (bytes, count)) :
    ∃ nodes after records, Preorder g [] [g.start.uuid] nodes after ∧
      unpack bytes = .ok ⟨script.uuid, script.stackSize, records⟩ ∧
      records.length = nodes.length ∧ records.length ≤ 65535 ∧
      bytes.length = headerLength + (records.map Unpacked.length).sum ∧
      ∀ (index : Nat) (node : Node) (record : Unpacked), nodes[index]? = some node →
        records[index]? = some record → Describes g nodes records index node record := by
  obtain ⟨nodes, outlines, body, ordered, outlined, few, written, rfl⟩ := pack_eq_ok packed
  obtain ⟨after, entered⟩ := order_preorder ordered
  have sound := outlines_sound outlined
  have present : ∀ record ∈ outlines, ∀ target ∈ record.successors, ∀ uuid ∈ target,
      uuid ∈ nodes.map (·.uuid) := by
    intro record member target next uuid linked
    obtain ⟨node, visit, successors, -⟩ := sound record member
    have reached := (entered.mem_iff node.uuid).mp (List.mem_map_of_mem visit)
    rw [successors, Packed.successors, List.mem_map] at next
    obtain ⟨pin, output, rfl⟩ := next
    exact (entered.mem_iff uuid).mpr (reached.tail
      ⟨node, entered.found node visit, List.mem_filterMap.mpr ⟨pin, output, linked⟩⟩)
  obtain ⟨reads, records, taken, success, count, unpacked⟩ :=
    records_unpacked (outlines_order outlined)
      (fun record member => (sound record member).elim fun _ facts => facts.2.2) present written
  obtain ⟨length, each⟩ := outlines_eq_ok outlined
  have lengths : records.map Unpacked.length = outlines.map Outline.length := by
    refine map_eq_map_of_getElem? count fun index record at_index => ?_
    obtain ⟨indices, points, read⟩ := unpacked index record at_index
    simp [read, Unpacked.length, Outline.length, points.length_eq]
  have contents := contents_reads script (by omega) taken
  refine ⟨nodes, after, records, entered, ?_, count.trans length, count ▸ few, ?_, ?_⟩
  · have read := contents []
    rw [List.append_nil] at read
    simp only [unpack, StateT.run, read]
    exact bind_eq_ok_iff.mpr ⟨_, rfl, bind_eq_ok_iff.mpr ⟨records, success, rfl⟩⟩
  · have body := (Reader.Reads.records
      (fun record member => (sound record member).elim fun _ facts => facts.2.2) written).1
    simp [lengths, body, headerLength]
    omega
  · intro index node record at_index read
    obtain ⟨data, packed, outline⟩ := each index node at_index
    obtain ⟨indices, points, read'⟩ := unpacked index _ outline
    obtain rfl := Option.some.inj (read.symm.trans read')
    refine ⟨rfl, ?_, points, ?_⟩
    · simpa using (payload_tells packed).1
    · rw [List.map_take, lengths, ← List.map_take]
      rfl

theorem pack_of_packLogged (packed : (packLogged g script).value = .ok bytes) :
    ∃ count, pack g script = .ok (bytes, count) := by
  unfold packLogged at packed
  split at packed
  · cases packed
  · next bytes' count result =>
    obtain rfl := Except.ok.inj packed
    exact ⟨count, result⟩

/-- Reading undoes packing. Whatever script heads it, a packed graph is read back as the script's
identifier and stack size and one record for each node that is reached from Start, in depth-first
order from Start on. Each record starts where the one before it ends, describes its node, and names
the records of the nodes that follow. -/
theorem unpack_packLogged {nodes : List Node} {links : List Link}
    (accepted : Graph.ofParts nodes links = .ok g) (script : Script) {bytes : List UInt8}
    (packed : (packLogged g script).value = .ok bytes) :
    ∃ visited after records, Preorder g [] [g.start.uuid] visited after ∧
      visited.head? = some g.start ∧ (visited.map (·.uuid)).Nodup ∧
      (∀ uuid, uuid ∈ visited.map (·.uuid) ↔ g.Reaches g.start.uuid uuid) ∧
      unpack bytes = .ok ⟨script.uuid, script.stackSize, records⟩ ∧
      records.length = visited.length ∧
      bytes.length = headerLength + (records.map Unpacked.length).sum ∧
      ∀ (index : Nat) (node : Node) (record : Unpacked), visited[index]? = some node →
        records[index]? = some record → Describes g visited records index node record := by
  have formed := ((Graph.ofParts_eq_ok_iff nodes links g).mp accepted).2
  obtain ⟨count, packed⟩ := pack_of_packLogged packed
  obtain ⟨visited, after, records, entered, read, length, -, size, each⟩ := unpack_of_pack packed
  have distinct : (visited.map (·.uuid)).Nodup := by
    have distinct := entered.nodup List.nodup_nil
    rwa [entered.after_eq, List.append_nil, List.nodup_reverse] at distinct
  exact ⟨visited, after, records, entered, entered.head?_eq formed.node?_start.1, distinct,
    entered.mem_iff, read, length, size, each⟩

/-- The sample graph, packed and read. Its Value node has no record. -/
theorem unpack_packLogged_sample :
    let script : Script := ⟨9, "sample", "script", .empty, 4, ""⟩
    let visited := [1, 2, 3, 4, 6, 7, 8].filterMap Graph.sample.node?
    ∃ bytes records, (packLogged Graph.sample script).value = .ok bytes ∧
      unpack bytes = .ok ⟨9, 4, records⟩ ∧ records.length = 7 ∧
      ∀ (index : Nat) (node : Node) (record : Unpacked), visited[index]? = some node →
        records[index]? = some record →
          Describes Graph.sample visited records index node record := by
  intro script visited
  have packed : (packLogged Graph.sample script).value =
      .ok ((packLogged Graph.sample script).value.toOption.getD []) := by decide +kernel
  obtain ⟨visited', after, records, entered, -, -, -, read, length, -, each⟩ :=
    unpack_packLogged Graph.sample_accepted script packed
  have ordered : order Graph.sample "sample" = .ok visited := by decide +kernel
  obtain ⟨after', entered'⟩ := order_preorder ordered
  obtain ⟨rfl, -⟩ := entered.unique entered'
  exact ⟨_, records, packed, read, length, each⟩

end Packed

end NodeScript
