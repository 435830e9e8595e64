import NodeScript.Json.Value
import NodeScript.Proofs.Json.Printed

/-!
What is found in the tree of a printed value: strings and integers are the printed ones, and the
fields of an object are found under their keys. Of a floating-point number only the digits are
known here; which number they give is asked of the text.
-/
namespace NodeScript

/-- A traversal in which every step succeeds. -/
theorem mapM_eq_pure {m : Type → Type} [Monad m] [LawfulMonad m] {α β : Type} {read : α → m β}
    (found : α → β) {items : List α} (each : ∀ item ∈ items, read item = pure (found item)) :
    items.mapM read = pure (items.map found) := by
  induction items with
  | nil => rfl
  | cons item items ih =>
    obtain ⟨first, others⟩ := List.forall_mem_cons.mp each
    rw [List.mapM_cons, first, ih others]
    simp

namespace Json

/-! ### Strings and integers -/

theorem decodePieces?_pieces (text : String) : decodePieces? (pieces text) = some text := by
  have decoded (chars : List Char) : decodeFrom? none (chars.map piece) = some chars := by
    induction chars with
    | nil => rfl
    | cons c chars ih =>
      rw [List.map_cons, piece]
      split
      · next control =>
        have below : c.toNat < 0xD800 := by omega
        simp [decodeFrom?, below, ih]
      · simp [decodeFrom?, ih]
  rw [decodePieces?, pieces, decoded, Option.map_some, String.ofList_toList]

variable {n : Nat} (depth : Nat)

theorem number?_nat (word : n < Literal.wordBound) :
    (Spelling.ofInt n).literal.number? = some (.int n) := number?_ofInt (by omega) (by omega)

theorem value?_int (word : n < Literal.wordBound) :
    (tree (.int n)).value? depth = some (.int n) := by
  rw [tree_int, Tree.value?, number?_nat word, Option.map_some]

theorem value?_string (text : String) :
    (tree (.string text)).value? depth = some (.string text) := by
  rw [tree, Tree.value?, decodePieces?_pieces, Option.map_some]

theorem natBelow?_int {bound : Nat} (below : n < bound) (word : n < Literal.wordBound) :
    (tree (.int n)).natBelow? bound = some n := by
  have fits : (0 : Int) ≤ n ∧ (n : Int) < bound := by omega
  rw [tree_int, Tree.natBelow?, Tree.int?, number?_nat word, Option.bind_some, if_pos fits,
    Int.toNat_natCast]

/-! ### Floating-point numbers -/

/-- Whether a text is read as the number `x`, once rounded to single precision. -/
def ReadsAs (text : List Char) (x : Binary32) : Prop :=
  ((Literal.ofChars? text).bind Literal.number?).map (Number.toBinary .single) = some x

instance (text : List Char) (x : Binary32) : Decidable (ReadsAs text x) :=
  inferInstanceAs (Decidable (_ = _))

/-- Such a text is a literal in range. -/
theorem ReadsAs.literal {text : List Char} {x : Binary32} (reads : ReadsAs text x) :
    ∃ literal number, numeral text = .number literal ∧ literal.number? = some number ∧
      number.toBinary .single = x := by
  unfold ReadsAs at reads
  obtain ⟨number, read, value⟩ := Option.map_eq_some_iff.mp reads
  obtain ⟨literal, spelled, value'⟩ := Option.bind_eq_some_iff.mp read
  exact ⟨literal, number, by simp [numeral, spelled], value', value⟩

theorem ReadsAs.single? {text : List Char} {x : Binary32} (reads : ReadsAs text x) :
    (numeral text).single? = some x := by
  obtain ⟨literal, number, tree, read, value⟩ := reads.literal
  rw [tree, Tree.single?, read, Option.map_some, value]

theorem ReadsAs.value? {text : List Char} {x : Binary32} (reads : ReadsAs text x) :
    ∃ value, (numeral text).value? depth = some value ∧ value.single? = some x := by
  obtain ⟨literal, number, tree, read, value⟩ := reads.literal
  rw [tree, Tree.value?, read, Option.map_some]
  refine ⟨_, rfl, ?_⟩
  rw [← value]
  cases number <;> rfl

/-- A number that is not finite is printed as `null`. -/
theorem numeral_floatText {F : Format} (style : DecimalStyle) {x : Binary F}
    (finite : x.isFinite = false) : numeral (floatText style x) = .null := by
  rw [floatText, if_neg (by simp [finite])]
  rfl

/-! ### Arrays and objects -/

theorem itemTrees_eq_map (items : List Json) : itemTrees items = items.map tree := by
  induction items with
  | nil => rfl
  | cons item items ih => rw [itemTrees, ih, List.map_cons]

namespace Tree

/-- The members of a printed object. -/
def known (fields : List (String × Json)) : List (String × Tree) :=
  fields.map fun (key, value) => (key, value.tree)

theorem members_memberTrees (fields : List (String × Json)) :
    members (memberTrees fields) = some (known fields) := by
  have trees : memberTrees fields = fields.map fun field => (pieces field.1, field.2.tree) := by
    induction fields with
    | nil => rfl
    | cons field fields ih => rw [memberTrees, ih, List.map_cons]
  rw [members, trees, List.mapM_map]
  exact mapM_eq_pure _ fun field _ => by
    simp [decodePieces?_pieces]

theorem filter_key {members : List (String × Tree)} (distinct : (members.map (·.1)).Nodup)
    {member : String × Tree} (present : member ∈ members) :
    (members.filter fun other => other.1 == member.1) = [member] := by
  induction members with
  | nil => cases present
  | cons other members ih =>
    obtain ⟨new, others⟩ := List.nodup_cons.mp distinct
    rcases List.mem_cons.mp present with rfl | later
    · have left : (members.filter fun other => other.1 == member.1) = [] := by
        refine List.filter_eq_nil_iff.mpr fun other present same => new ?_
        exact List.mem_map.mpr ⟨other, present, eq_of_beq same⟩
      simp only [List.filter_cons, beq_self_eq_true, if_true, left]
    · have differs : (other.1 == member.1) = false := by
        refine beq_eq_false_iff_ne.mpr fun same => new ?_
        exact List.mem_map.mpr ⟨member, later, same.symm⟩
      rw [List.filter_cons_of_neg (by simp [differs]), ih others later]

theorem field?_known {fields : List (String × Json)} (distinct : (fields.map (·.1)).Nodup)
    {field : String × Json} (member : field ∈ fields) :
    field? (known fields) field.1 = some (some field.2.tree) := by
  have keys : (known fields).map (·.1) = fields.map (·.1) := by
    simp [known, Function.comp_def]
  have present : (field.1, field.2.tree) ∈ known fields :=
    List.mem_map.mpr ⟨field, member, rfl⟩
  rw [field?, filter_key (keys ▸ distinct) present]

/-- A record is found in the object that was printed for it. -/
theorem record?_tree {fields : List (String × Json)} (distinct : (fields.map (·.1)).Nodup) :
    (tree (.object fields)).record? (fields.map (·.1)) =
      some (fields.map fun field => some field.2.tree) := by
  rw [Json.tree, record?, members_memberTrees, Option.bind_some, List.mapM_map]
  exact mapM_eq_pure _ fun field member => field?_known distinct member

/-- The same among other members, which are read as values. -/
theorem openRecord?_tree (depth : Nat) {fields others : List (String × Json)}
    (distinct : ((fields ++ others).map (·.1)).Nodup) :
    (tree (.object (fields ++ others))).openRecord? depth (fields.map (·.1)) =
      (others.mapM fun (other : String × Json) =>
        (other.2.tree.value? depth).map fun value => (other.1, value)).map
          fun rest => (fields.map fun field => some field.2.tree, rest) := by
  have found : (fields.map (·.1)).mapM (field? (known (fields ++ others))) =
      some (fields.map fun field => some field.2.tree) := by
    rw [List.mapM_map]
    exact mapM_eq_pure _ fun field member =>
      field?_known distinct (List.mem_append_left others member)
  have left : ((known (fields ++ others)).filter fun member =>
      !(fields.map (·.1)).contains member.1) = known others := by
    have apart := (List.nodup_append.mp (List.map_append ▸ distinct)).2.2
    have named : ((known fields).filter fun member =>
        !(fields.map (·.1)).contains member.1) = [] := by
      refine List.filter_eq_nil_iff.mpr fun member present => ?_
      obtain ⟨field, member', rfl⟩ := List.mem_map.mp present
      simpa using ⟨_, member'⟩
    have unnamed : ((known others).filter fun member =>
        !(fields.map (·.1)).contains member.1) = known others := by
      refine List.filter_eq_self.mpr fun member present => ?_
      obtain ⟨other, member', rfl⟩ := List.mem_map.mp present
      have new : other.1 ∉ fields.map (·.1) := fun old =>
        apart _ old _ (List.mem_map_of_mem member') rfl
      simpa using new
    rw [known, List.map_append, List.filter_append]
    exact congrArg₂ _ named unnamed
  rw [Json.tree, openRecord?, members_memberTrees]
  simp only [Option.bind_eq_bind, Option.bind_some, found, left]
  rw [known, List.mapM_map, Option.map_eq_bind]
  rfl

end Tree

end Json

end NodeScript
