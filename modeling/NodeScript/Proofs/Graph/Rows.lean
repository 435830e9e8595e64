import NodeScript.Proofs.Graph.Preorder

/-!
Rows of nodes: graphs of any length in which each node leads to the next one. A row is accepted, and
its nodes are entered in the order in which they stand.
-/
namespace NodeScript.Graph

/-- The node at a place of a row. -/
def rowNode (kind : NodeKind) (place : Nat) : Node :=
  ⟨place.toUInt64, if place = 0 then .start else kind, .origin⟩

/-- Start and behind it nodes of one kind, each leading to the next one. The second output of Start
leads to the last of them. -/
def row (kind : NodeKind) (last : Nat) : Graph where
  nodes := (List.range (last + 1)).map (rowNode kind)
  links := (List.range last).map (fun place => ⟨place.toUInt64, 0, (place + 1).toUInt64, 0⟩) ++
    [⟨0, 1, last.toUInt64, 0⟩]

/-- Numbers of 64 bits are told apart as words. -/
theorem toUInt64_inj {a b : Nat} (small : a < UInt64.size) (small' : b < UInt64.size) :
    a.toUInt64 = b.toUInt64 ↔ a = b := by
  refine ⟨fun same => ?_, congrArg _⟩
  rw [← UInt64.toNat_ofNat_of_lt' small, ← UInt64.toNat_ofNat_of_lt' small']
  exact congrArg UInt64.toNat same

variable {kind : NodeKind} {last place : Nat}

theorem getElem?_row (inside : place ≤ last) :
    (row kind last).nodes[place]? = some (rowNode kind place) := by
  simp [row, Nat.lt_succ_of_le inside]

theorem type_rowNode (behind : 0 < place) : (rowNode kind place).type = kind.type := by
  rw [Node.type, rowNode, if_neg (Nat.ne_of_gt behind)]

theorem nodes_row (kind : NodeKind) (last : Nat) :
    (row kind last).nodes = rowNode kind 0 :: (List.range' 1 last).map (rowNode kind) := by
  rw [row, List.range_eq_range', List.range'_succ, List.map_cons]

theorem length_row (kind : NodeKind) (last : Nat) : (row kind last).nodes.length = last + 1 := by
  simp [row]

theorem start_row (kind : NodeKind) (last : Nat) : (row kind last).start = rowNode kind 0 := by
  rw [start, nodes_row]
  rfl

/-- Of the nodes behind Start either all have a type or none. -/
theorem filter_row (kind : NodeKind) (last : Nat) (wanted : NodeType → Bool) :
    ((List.range' 1 last).map (rowNode kind)).filter (fun node => wanted node.type) =
      if wanted kind.type then (List.range' 1 last).map (rowNode kind) else [] := by
  have alike : ∀ node ∈ (List.range' 1 last).map (rowNode kind), node.type = kind.type :=
    List.forall_mem_map.mpr fun _ listed => type_rowNode (List.mem_range'_1.mp listed).1
  split
  · next all => exact List.filter_eq_self.mpr fun node member => (alike node member).symm ▸ all
  · next none =>
    exact List.filter_eq_nil_iff.mpr fun node member => (alike node member).symm ▸ none

section Numbered

variable (fits : last < UInt64.size)

include fits

theorem nodup_row : ((row kind last).nodes.map (·.uuid)).Nodup := by
  rw [row, List.map_map, List.nodup_map_iff_inj_on List.nodup_range]
  intro place inside other inside' same
  have small := Nat.lt_of_lt_of_le (List.mem_range.mp inside) fits
  have small' := Nat.lt_of_lt_of_le (List.mem_range.mp inside') fits
  exact (toUInt64_inj small small').mp same

theorem node?_row (inside : place ≤ last) :
    (row kind last).node? place.toUInt64 = some (rowNode kind place) :=
  find?_of_nodup_keys (nodup_row fits) (List.mem_of_getElem? (getElem?_row inside))

/-- The link to the next node is found under the first output. -/
theorem find?_place (inside : place ≤ last) (pin : UInt16) :
    (List.range last).find? (fun n => n.toUInt64 == place.toUInt64 && 0 == pin) =
      if pin = 0 ∧ place < last then some place else none := by
  have small := Nat.lt_of_le_of_lt inside fits
  split
  · next here =>
    refine List.find?_range_eq_some.mpr ⟨by simp [here.1], List.mem_range.mpr here.2, ?_⟩
    intro n before
    have apart := mt (toUInt64_inj (Nat.lt_trans before small) small).mp (Nat.ne_of_lt before)
    simp [apart]
  · next away =>
    refine List.find?_eq_none.mpr fun n listed => ?_
    have before := List.mem_range.mp listed
    simp only [Bool.and_eq_true, beq_iff_eq, toUInt64_inj (Nat.lt_trans before fits) small]
    rintro ⟨rfl, rfl⟩
    exact away ⟨rfl, before⟩

theorem successor?_row (inside : place ≤ last) (pin : UInt16) :
    (row kind last).successor? place.toUInt64 pin =
      if pin = 0 then if place < last then some (place + 1).toUInt64 else none
      else if pin = 1 ∧ place = 0 then some last.toUInt64 else none := by
  have start : (0 : UInt64) = place.toUInt64 ↔ place = 0 := by
    rw [eq_comm]
    exact toUInt64_inj (Nat.lt_of_le_of_lt inside fits) (Nat.zero_lt_of_lt fits)
  rw [successor?, linksFrom, List.head?_filter, row, List.find?_append, List.find?_map]
  simp only [Function.comp_def, find?_place fits inside, List.find?_singleton]
  by_cases zero : pin = 0
  · subst zero
    by_cases before : place < last <;> simp [before]
  · by_cases second : pin = 1 ∧ place = 0
    · simp [second.1, second.2]
    · have other : ¬ (0 == place.toUInt64 && 1 == pin) = true := by
        rw [Bool.and_eq_true, beq_iff_eq, beq_iff_eq, start]
        exact fun both => second ⟨both.2.symm, both.1⟩
      rw [if_neg fun both => zero both.1, if_neg other, if_neg zero, if_neg second]
      rfl

/-- A node behind Start leads to the next one, and the last leads nowhere. -/
theorem targets_row (entered : kind.type.inputs ≠ []) (behind : 0 < place) (inside : place ≤ last) :
    (row kind last).targets (rowNode kind place) =
      if place < last then [(place + 1).toUInt64] else [] := by
  obtain ⟨outputs, others⟩ : kind.type.logicOutputs = 0 :: kind.type.logicOutputs.tail ∧
      0 ∉ kind.type.logicOutputs.tail := by
    revert entered
    cases kind.type <;> decide
  have linked := @successor?_row kind _ _ fits inside
  have unlinked : kind.type.logicOutputs.tail.filterMap
      (fun pin => (row kind last).successor? place.toUInt64 pin) = [] := by
    refine List.filterMap_eq_nil_iff.mpr fun pin member => ?_
    rw [linked, if_neg (fun zero : pin = 0 => others (zero ▸ member)),
      if_neg fun start => Nat.ne_of_gt behind start.2]
  change ((rowNode kind place).type.logicOutputs.filterMap fun pin =>
    (row kind last).successor? place.toUInt64 pin) = _
  rw [type_rowNode behind, outputs, List.filterMap_cons, linked, unlinked, if_pos rfl]
  by_cases next : place < last
  · rw [if_pos next, if_pos next]
  · rw [if_neg next, if_neg next]

theorem targets_row_start (filled : 0 < last) :
    (row kind last).targets (rowNode kind 0) = [Nat.toUInt64 1, last.toUInt64] := by
  have linked := @successor?_row kind _ _ fits (Nat.zero_le last)
  change [0, 1, 2].filterMap (fun pin => (row kind last).successor? (Nat.toUInt64 0) pin) = _
  simp only [linked, filled, List.filterMap_cons, List.filterMap_nil]
  rfl

/-- From any place behind Start on, the rest of a row is entered in order. -/
theorem preorder_rest (entered : kind.type.inputs ≠ []) (left : Nat) {seen : List Uuid}
    (behind : 0 < place) (rest : place + left = last)
    (unseen : ∀ n, place ≤ n → n ≤ last → n.toUInt64 ∉ seen) :
    ∃ after, Preorder (row kind last) seen [place.toUInt64]
      ((List.range' place (left + 1)).map (rowNode kind)) after := by
  induction left generalizing place seen with
  | zero =>
    have inside : place ≤ last := Nat.le_of_eq rest
    have nowhere := targets_row fits entered behind inside
    rw [if_neg (by omega)] at nowhere
    have below : Preorder (row kind last) (place.toUInt64 :: seen)
        ((row kind last).targets (rowNode kind place)) [] (place.toUInt64 :: seen) :=
      nowhere ▸ .done _
    exact ⟨_, .enter (unseen place (Nat.le_refl _) inside) (node?_row fits inside) below (.done _)⟩
  | succ left ih =>
    have inside : place ≤ last := by omega
    have next := targets_row fits entered behind inside
    rw [if_pos (by omega)] at next
    obtain ⟨after, others⟩ := @ih (place + 1) (place.toUInt64 :: seen) (Nat.succ_pos _) (by omega)
      fun n above below member => by
        rcases List.mem_cons.mp member with same | member
        · have := (toUInt64_inj (by omega) (by omega)).mp same
          omega
        · exact unseen n (by omega) below member
    rw [← next] at others
    have whole := Preorder.enter (unseen place (Nat.le_refl _) inside) (node?_row fits inside)
      others (.done _)
    rw [List.append_nil] at whole
    exact ⟨after, whole⟩

/-- The nodes of a row are entered in the order in which they stand. -/
theorem preorder_row (entered : kind.type.inputs ≠ []) (filled : 0 < last) :
    ∃ after, Preorder (row kind last) [] [(row kind last).start.uuid] (row kind last).nodes
      after := by
  have unseen : ∀ n, 1 ≤ n → n ≤ last → n.toUInt64 ∉ [Nat.toUInt64 0] := by
    intro n above below member
    have := (toUInt64_inj (by omega) (by omega)).mp (List.mem_singleton.mp member)
    omega
  obtain ⟨after, others⟩ :=
    preorder_rest fits entered (last - 1) Nat.one_pos (by omega) unseen
  rw [Nat.sub_add_cancel filled] at others
  -- Start also leads to the last node, which has been entered by then.
  have known : last.toUInt64 ∈ after := by
    have member : rowNode kind last ∈ (List.range' 1 last).map (rowNode kind) :=
      List.mem_map_of_mem (List.mem_range'_1.mpr (by omega))
    rw [others.after_eq]
    exact List.mem_append_left _ (List.mem_reverse.mpr (List.mem_map_of_mem member))
  have below := others.append (.again known (.done after))
  rw [List.singleton_append, ← targets_row_start fits filled] at below
  have whole := Preorder.enter List.not_mem_nil (node?_row fits (Nat.zero_le last)) below (.done _)
  rw [List.append_nil, List.append_nil, ← nodes_row] at whole
  exact ⟨after, start_row kind last ▸ whole⟩

/-- All nodes of a row are reached. -/
theorem ncard_row (entered : kind.type.inputs ≠ []) (filled : 0 < last) :
    Set.ncard {uuid | (row kind last).Reaches (row kind last).start.uuid uuid} = last + 1 := by
  obtain ⟨after, order⟩ := preorder_row fits entered filled
  rw [order.ncard_reached, length_row]

/-- A row is accepted as a graph. -/
theorem row_accepted (entered : kind.type.inputs ≠ []) (filled : 0 < last) :
    ofParts (row kind last).nodes (row kind last).links = .ok (row kind last) := by
  obtain ⟨input, output, other⟩ : (kind.type.pin? .input 0).isSome ∧
      (kind.type.pin? .output 0).isSome ∧ kind.type ≠ .start := by
    revert entered
    cases kind.type <;> decide
  have arrives {n : Nat} (behind : 0 < n) (inside : n ≤ last) :
      ((row kind last).pinKind? .input n.toUInt64 0).isSome := by
    simpa [pinKind?, node?_row fits inside, type_rowNode behind] using input
  have leaves {n : Nat} (inside : n ≤ last) :
      ((row kind last).pinKind? .output n.toUInt64 0).isSome := by
    rcases Nat.eq_zero_or_pos n with rfl | behind
    · rw [pinKind?, node?_row fits inside]
      rfl
    · simpa [pinKind?, node?_row fits inside, type_rowNode behind] using output
  refine (ofParts_eq_ok_iff _ _ _).mpr ⟨rfl, nodup_row fits, ?_, ?_⟩
  · have others := filter_row kind last (· == .start)
    rw [if_neg (by simpa using other)] at others
    rw [nodes_row, List.filter_cons_of_pos rfl, others]
    rfl
  · refine List.forall_mem_append.mpr ⟨List.forall_mem_map.mpr fun n listed => ?_, ?_⟩
    · have before := List.mem_range.mp listed
      exact ⟨leaves (Nat.le_of_lt before), arrives (Nat.succ_pos n) before⟩
    · refine List.forall_mem_singleton.mpr ⟨?_, arrives filled (Nat.le_refl _)⟩
      change ((row kind last).pinKind? .output (Nat.toUInt64 0) 1).isSome
      rw [pinKind?, node?_row fits (Nat.zero_le last)]
      rfl

end Numbered

end NodeScript.Graph
