import Mathlib.Algebra.Order.BigOperators.Group.List
import Mathlib.Algebra.Order.Ring.Nat
import NodeScript.Table.Codec

/-!
Table files are read back. `Reads` says that a reader takes exactly the given bytes, whatever comes
behind them, and that it fails on anything shorter; both pass to readers that are run one after
the other. A reader inverts a writer if it so reads all that was written, as far as its length can
be counted in 64 bits: the lengths and counts inside of it are then not cut either.
-/
namespace NodeScript

@[simp] theorem length_littleEndian (width n : Nat) : (littleEndian width n).length = width := by
  induction width generalizing n with
  | zero => rfl
  | succ width ih => simp [littleEndian, ih]

theorem ofLittleEndian_littleEndian {width n : Nat} (small : n < 256 ^ width) :
    ofLittleEndian (littleEndian width n) = n := by
  induction width generalizing n with
  | zero => exact (Nat.lt_one_iff.mp small).symm
  | succ width ih =>
    have high : n / 256 < 256 ^ width := Nat.div_lt_of_lt_mul (by rwa [Nat.pow_succ'] at small)
    have low : n.toUInt8.toNat = n % 256 := by simp
    have start := ih high
    simp only [ofLittleEndian, littleEndian, List.foldr_cons, low] at start ⊢
    rw [start]
    omega

theorem toList_loop_byteArray (content : ByteArray) (position : Nat) (read : List UInt8) :
    ByteArray.toList.loop content position read
      = read.reverse ++ content.data.toList.drop position := by
  fun_induction ByteArray.toList.loop content position read with
  | case1 position read inside ih =>
    have here : content.get! position = content.data.toList[position] := by
      simp [ByteArray.get!, getElem!_pos, inside]
    rw [ih, here, List.drop_eq_getElem_cons inside]
    simp
  | case2 position read outside =>
    rw [List.drop_of_length_le (Nat.not_lt.mp outside), List.append_nil]

theorem toList_byteArray (content : ByteArray) : content.toList = content.data.toList :=
  toList_loop_byteArray content 0 []

namespace Encoding

theorem foldSign_lt (value : Int64) : foldSign value < UInt64.size := by
  have low := value.le_toInt
  have high := value.toInt_lt
  unfold foldSign
  split <;> simp only [UInt64.size] <;> omega

theorem nat_ne_nil (n : Nat) : nat n ≠ [] := by
  unfold nat
  repeat' split
  all_goals exact List.cons_ne_nil _ _

end Encoding

namespace Decoder

variable {α β : Type}

theorem unfoldSign_foldSign (value : Int64) : unfoldSign (Encoding.foldSign value) = value := by
  unfold unfoldSign Encoding.foldSign
  split
  case isTrue negative =>
    have odd : (2 * value.toInt.natAbs - 1) % 2 ≠ 0 := by omega
    have back : -(((2 * value.toInt.natAbs - 1) / 2 : Nat) + 1 : Int) = value.toInt := by omega
    rw [if_neg odd, back, Int64.ofInt_toInt]
  case isFalse positive =>
    have even : 2 * value.toInt.natAbs % 2 = 0 := by omega
    have back : ((2 * value.toInt.natAbs / 2 : Nat) : Int) = value.toInt := by omega
    rw [if_pos even, back, Int64.ofInt_toInt]

/-- A reader takes these bytes, not fewer, and gives this value. -/
structure Reads (reader : Decoder α) (bytes : List UInt8) (value : α) : Prop where
  whole : ∀ rest, reader (bytes ++ rest) = some (value, rest)
  short : ∀ part, part <+: bytes → part ≠ bytes → reader part = none

namespace Reads

theorem pure (value : α) : Reads (Pure.pure value) [] value where
  whole _ := rfl
  short _ inside less := absurd (List.prefix_nil.mp inside) less

/-- A cut is in the bytes of the first reader or behind them, in those of the second. -/
theorem bind {reader : Decoder α} {next : α → Decoder β} {bytes bytes' : List UInt8} {value : α}
    {value' : β} (first : Reads reader bytes value) (second : Reads (next value) bytes' value') :
    Reads (reader >>= next) (bytes ++ bytes') value' where
  whole rest := by
    change (reader ((bytes ++ bytes') ++ rest) >>= fun (value, left) => next value left) = _
    rw [List.append_assoc, first.whole]
    exact second.whole rest
  short part inside less := by
    change (reader part >>= fun (value, left) => next value left) = none
    obtain early | late := List.prefix_or_prefix_of_prefix inside (List.prefix_append bytes bytes')
    · by_cases all : part = bytes
      · subst all
        have some : bytes' ≠ [] := by
          rintro rfl
          exact less (List.append_nil part).symm
        have read := first.whole []
        rw [List.append_nil] at read
        rw [read]
        exact second.short [] List.nil_prefix some.symm
      · rw [first.short part early all]
        rfl
    · obtain ⟨left, rfl⟩ := late
      rw [first.whole]
      apply second.short left
      · exact (List.prefix_append_right_inj bytes).mp inside
      · rintro rfl
        exact less rfl

theorem map {reader : Decoder α} {bytes : List UInt8} {value : α} (f : α → β)
    (reads : Reads reader bytes value) : Reads (f <$> reader) bytes (f value) where
  whole rest := by
    change (reader (bytes ++ rest) >>= fun (value, left) => some (f value, left)) = _
    rw [reads.whole]
    rfl
  short part inside less := by
    change (reader part >>= fun (value, left) => some (f value, left)) = none
    rw [reads.short part inside less]
    rfl

theorem byte (value : UInt8) : Reads Decoder.byte [value] value where
  whole _ := rfl
  short part inside less := by
    obtain rfl | ⟨left, rfl, nothing⟩ := List.prefix_cons_iff.mp inside
    · rfl
    · rw [List.prefix_nil.mp nothing] at less
      exact absurd rfl less

theorem bytes (content : List UInt8) : Reads (Decoder.bytes content.length) content content where
  whole rest := by simp [Decoder.bytes]
  short part inside less := by
    have fewer : part.length < content.length :=
      Nat.lt_of_le_of_ne inside.length_le fun same => less (inside.eq_of_length same)
    simp only [Decoder.bytes, List.take_of_length_le (Nat.le_of_lt fewer)]
    exact if_neg (Nat.ne_of_lt fewer)

theorem fixed {width n : Nat} (small : n < 256 ^ width) :
    Reads (Decoder.fixed width) (littleEndian width n) n := by
  have taken := (bytes (littleEndian width n)).map ofLittleEndian
  rw [length_littleEndian, ofLittleEndian_littleEndian small] at taken
  exact taken

/-- A number takes the shortest of four forms. Those that its field is too narrow for are not
among them, because the number fits the field. -/
theorem nat (width : Nat) {n : Nat} (field : width = 2 ∨ width = 4 ∨ width = 8) (small : n < 256 ^ width) :
    Reads (Decoder.nat width) (Encoding.nat n) n := by
  unfold Encoding.nat
  split
  case isTrue tiny =>
    have low : n.toUInt8.toNat = n := by simp; omega
    have plain : n.toUInt8 < 251 := by rw [UInt8.lt_iff_toNat_lt, low]; exact tiny
    change Reads _ ([n.toUInt8] ++ []) n
    apply (byte n.toUInt8).bind
    rw [if_pos plain, low]
    exact .pure n
  case isFalse large =>
    split
    case isTrue two =>
      change Reads _ ([251] ++ littleEndian 2 n) n
      have wide : 2 ≤ width := by omega
      apply (byte 251).bind
      rw [if_neg (by decide), if_pos ⟨rfl, wide⟩]
      exact fixed two
    case isFalse large =>
      split
      case isTrue four =>
        change Reads _ ([252] ++ littleEndian 4 n) n
        have wide : 4 ≤ width := by
          obtain rfl | rfl | rfl := field
          · exact absurd small large
          · decide
          · decide
        apply (byte 252).bind
        rw [if_neg (by decide), if_neg (by simp), if_pos ⟨rfl, wide⟩]
        exact fixed four
      case isFalse larger =>
        change Reads _ ([253] ++ littleEndian 8 n) n
        apply (byte 253).bind
        obtain rfl | rfl | rfl := field
        · exact absurd small large
        · exact absurd small larger
        · exact fixed small

theorem word16 (word : UInt16) : Reads Decoder.word16 (Encoding.nat word.toNat) word := by
  have read := (nat 2 (.inl rfl) word.toNat_lt).map Nat.toUInt16
  rwa [show word.toNat.toUInt16 = word from UInt16.ofNat_toNat] at read

theorem word32 (word : UInt32) : Reads Decoder.word32 (Encoding.nat word.toNat) word := by
  have read := (nat 4 (.inr (.inl rfl)) word.toNat_lt).map Nat.toUInt32
  rwa [show word.toNat.toUInt32 = word from UInt32.ofNat_toNat] at read

theorem word64 (word : UInt64) : Reads Decoder.word64 (Encoding.nat word.toNat) word := by
  have read := (nat 8 (.inr (.inr rfl)) word.toNat_lt).map Nat.toUInt64
  rwa [show word.toNat.toUInt64 = word from UInt64.ofNat_toNat] at read

theorem int64 (value : Int64) : Reads Decoder.int64 (Encoding.int64 value) value := by
  have read := (nat 8 (.inr (.inr rfl)) (Encoding.foldSign_lt value)).map unfoldSign
  rwa [unfoldSign_foldSign] at read

theorem text {s : String} (countable : (Encoding.text s).length < UInt64.size) :
    Reads Decoder.text (Encoding.text s) s := by
  have content : s.toUTF8.toList.toByteArray = s.toUTF8 := by
    rw [toList_byteArray]
    ext1
    simp
  have size : s.toUTF8.toList.length = s.utf8ByteSize := by
    rw [← List.size_toByteArray, content]
    rfl
  have small : s.utf8ByteSize < 256 ^ 8 := by
    rw [Encoding.text, List.length_append, size] at countable
    exact Nat.lt_of_le_of_lt (Nat.le_add_left _ _) countable
  apply (nat 8 (.inr (.inr rfl)) small).bind
  have taken := bytes s.toUTF8.toList
  rw [size] at taken
  rw [← List.append_nil s.toUTF8.toList]
  apply taken.bind
  have read : String.fromUTF8? s.toUTF8.toList.toByteArray = some s := by
    rw [content]
    exact dif_pos s.isValidUTF8
  rw [read]
  exact .pure s

theorem many {item : Decoder α} {write : α → List UInt8} {items : List α}
    (reads : ∀ value ∈ items, Reads item (write value) value) :
    Reads (Decoder.many item items.length) (items.flatMap write) items := by
  induction items with
  | nil => exact .pure []
  | cons first rest ih =>
    obtain ⟨here, others⟩ := List.forall_mem_cons.mp reads
    exact here.bind ((ih others).map (first :: ·))

end Reads

/-- What was written is read back, if its length can be counted. Something is always written, so
more items than can be counted are too long as well. -/
structure Inverts (reader : Decoder α) (write : α → List UInt8) : Prop where
  reads : ∀ value, (write value).length < UInt64.size → Reads reader (write value) value
  written : ∀ value, write value ≠ []

namespace Inverts

theorem list {item : Decoder α} {write : α → List UInt8} (inverts : Inverts item write) :
    Inverts (Decoder.list item) (Encoding.list write) where
  reads items countable := by
    rw [Encoding.list, List.length_append] at countable
    rw [List.length_flatMap] at countable
    have few : items.length ≤ (items.map fun value => (write value).length).sum := by
      have lengths := List.length_le_sum_of_one_le (items.map fun value => (write value).length)
      rw [List.length_map] at lengths
      apply lengths
      simpa [Nat.one_le_iff_ne_zero] using fun value _ => inverts.written value
    have short : ∀ value ∈ items, (write value).length < UInt64.size := by
      intro value present
      have part := List.le_sum_of_mem
        (List.mem_map_of_mem (f := fun value => (write value).length) present)
      omega
    have small : items.length < 256 ^ 8 := by
      change items.length < UInt64.size
      omega
    apply (Reads.nat 8 (.inr (.inr rfl)) small).bind
    exact .many fun value present => inverts.reads value (short value present)
  written _ := List.append_ne_nil_of_left_ne_nil (Encoding.nat_ne_nil _) _

theorem option {item : Decoder α} {write : α → List UInt8} (inverts : Inverts item write) :
    Inverts (Decoder.option item) (Encoding.option write) where
  reads
    | none, _ => (Reads.byte 0).bind (.pure none)
    | some value, countable =>
      (Reads.byte 1).bind ((inverts.reads value (Nat.lt_of_succ_lt countable)).map some)
  written value := by cases value <;> exact List.cons_ne_nil _ _

theorem address : Inverts word32 Encoding.address where
  reads value _ := .word32 value
  written _ := Encoding.nat_ne_nil _

end Inverts

namespace Reads

/-- A tag is a number in a field of four bytes. -/
theorem tag {n : Nat} (small : n < 256 ^ 4) : Reads (Decoder.nat 4) (Encoding.nat n) n :=
  nat 4 (.inr (.inl rfl)) small

/-- Where nothing follows the tag, it is the tag alone that says what was written. -/
theorem bare {n : Nat} (small : n < 256 ^ 4) {next : Nat → Decoder α} {value : α}
    (ends : next n = Pure.pure value) : Reads (Decoder.nat 4 >>= next) (Encoding.nat n) value := by
  rw [← List.append_nil (Encoding.nat n)]
  apply (tag small).bind
  rw [ends]
  exact .pure value

theorem operand (value : Operand) : Reads Decoder.operand (Encoding.operand value) value := by
  cases value with
  | constant number => exact (tag (by decide)).bind ((int64 number).map Operand.constant)
  | global slot => exact (tag (by decide)).bind ((word16 slot).map Operand.global)
  | frame slot => exact (tag (by decide)).bind ((word16 slot).map Operand.frame)

theorem compareOp (op : CompareOp) : Reads Decoder.compareOp [op.code.toUInt8] op := by
  change Reads _ ([op.code.toUInt8] ++ []) op
  apply (byte op.code.toUInt8).bind
  cases op <;> exact .pure _

theorem instruction (value : Instruction) :
    Reads Decoder.instruction (Encoding.instruction value) value := by
  cases value with
  | setLocal slot number =>
    rw [Encoding.instruction, List.append_assoc]
    exact (tag (by decide)).bind ((word16 slot).bind ((int64 number).map _))
  | sleep duration => exact (tag (by decide)).bind ((operand duration).map _)
  | deleteObject object => exact (tag (by decide)).bind ((operand object).map _)
  | sendEvent object eventType number =>
    simp only [Encoding.instruction, List.append_assoc]
    exact (tag (by decide)).bind
      ((operand object).bind ((operand eventType).bind ((operand number).map _)))
  | call function argument result =>
    simp only [Encoding.instruction, List.append_assoc]
    exact (tag (by decide)).bind
      ((word16 function).bind ((operand argument).bind ((word16 result).map _)))
  | jumpUnless op lhs rhs target =>
    simp only [Encoding.instruction, List.append_assoc]
    exact (tag (by decide)).bind
      ((compareOp op).bind ((operand lhs).bind ((operand rhs).bind ((word32 target).map _))))
  | loop counter bound exit =>
    simp only [Encoding.instruction, List.append_assoc]
    exact (tag (by decide)).bind
      ((word16 counter).bind ((word32 bound).bind ((word32 exit).map _)))
  | jump target => exact (tag (by decide)).bind ((word32 target).map _)
  | finish => exact bare (by decide) rfl

theorem globalKind (kind : GlobalKind) :
    Reads Decoder.globalKind (Encoding.globalKind kind) kind := by
  cases kind with
  | number => exact bare (by decide) rfl
  | counter => exact bare (by decide) rfl
  | function hash => exact (tag (by decide)).bind ((word32 hash).map _)

end Reads

namespace Inverts

theorem instruction : Inverts Decoder.instruction Encoding.instruction where
  reads value _ := .instruction value
  written value := by
    cases value <;> simp [Encoding.instruction, Encoding.nat_ne_nil]

theorem global : Inverts Decoder.global Encoding.global where
  reads value countable := by
    rw [Encoding.global, List.append_assoc] at countable ⊢
    have named : (Encoding.text value.name).length < UInt64.size := by
      rw [List.length_append] at countable
      omega
    exact (Reads.text named).bind ((Reads.globalKind value.kind).bind ((Reads.int64 _).map _))
  written value := by simp [Encoding.global, Encoding.text, Encoding.nat_ne_nil]

theorem program : Inverts Decoder.program Encoding.program where
  reads value countable := by
    simp only [Encoding.program, List.append_assoc, List.length_append] at countable ⊢
    refine (instruction.list.reads value.code.toList (by omega)).bind ?_
    refine (address.option.reads value.entries.init (by omega)).bind ?_
    refine (address.option.reads value.entries.event (by omega)).bind ?_
    refine (address.option.reads value.entries.collision (by omega)).bind ?_
    refine (global.list.reads value.globals.toList (by omega)).bind ?_
    exact (Reads.word16 value.maxLocals).map _
  written value := by
    simp [Encoding.program, Encoding.list, Encoding.nat_ne_nil]

theorem script : Inverts Decoder.script Encoding.script where
  reads value countable := by
    simp only [Encoding.script, List.append_assoc, List.length_append] at countable ⊢
    refine (Reads.word64 value.uuid).bind ?_
    refine (Reads.text (s := value.name) (by omega)).bind ?_
    refine (Reads.text (s := value.function) (by omega)).bind ?_
    refine (program.reads value.program (by omega)).bind ?_
    refine (Reads.word16 value.stackSize).bind ?_
    exact (Reads.text (s := value.source) (by omega)).map _
  written value := by simp [Encoding.script, Encoding.nat_ne_nil]

end Inverts

end Decoder

namespace Table

/-- A table is read back from its bytes, whatever follows them, and nothing is read from only a
part of them. It may have been put together in any way. Sequences of bytes that a machine can hold
are never too long to be counted. -/
theorem ofBytes?_toBytes (t : Table) (countable : t.toBytes.length < UInt64.size) :
    (∀ suffix, ofBytes? (t.toBytes ++ suffix) = some t)
      ∧ ∀ part, part <+: t.toBytes → part ≠ t.toBytes → ofBytes? part = none := by
  have reads := Decoder.Inverts.script.list.reads t.scripts countable
  constructor
  · intro suffix
    rw [ofBytes?, toBytes, reads.whole suffix]
    rfl
  · intro part inside less
    rw [ofBytes?, reads.short part inside less]
    rfl

/-- The table of a script that counts to the largest bound there is. -/
def counting : Table :=
  empty.add ⟨300, "Zähler", "graph_12C", ⟨#[.loop 0 4294967295 2, .jump 0, .finish],
    ⟨some 0, none, none⟩, #[⟨"i", .counter, -1⟩], 0⟩, 65535, ""⟩

theorem ofBytes?_toBytes_counting :
    counting.toBytes.length < UInt64.size
      ∧ (∀ suffix, ofBytes? (counting.toBytes ++ suffix) = some counting)
      ∧ ∀ part, part <+: counting.toBytes → part ≠ counting.toBytes → ofBytes? part = none :=
  have countable : counting.toBytes.length < UInt64.size := by decide +kernel
  ⟨countable, ofBytes?_toBytes counting countable⟩

end Table

end NodeScript
