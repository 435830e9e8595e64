import Mathlib.Algebra.Ring.Nat
import NodeScript.Packed.Reader
import NodeScript.Packed.Writer

/-!
Fields of packed records. `Reads` says that a reader takes exactly the given bytes, whatever comes
behind them; readers that are run one after the other take the bytes one after the other.
-/
namespace NodeScript

@[simp] theorem length_bigEndian (width n : Nat) : (bigEndian width n).length = width := by
  induction width generalizing n with
  | zero => rfl
  | succ width ih => simp [bigEndian, ih]

theorem ofBigEndian_bigEndian {width n : Nat} (small : n < 256 ^ width) :
    ofBigEndian (bigEndian width n) = n := by
  induction width generalizing n with
  | zero => exact (Nat.lt_one_iff.mp small).symm
  | succ width ih =>
    have high : n / 256 < 256 ^ width := Nat.div_lt_of_lt_mul (by rwa [Nat.pow_succ'] at small)
    have low : n.toUInt8.toNat = n % 256 := by simp
    have start := ih high
    simp only [ofBigEndian, bigEndian, List.foldl_append, List.foldl_cons, List.foldl_nil, low]
      at start ⊢
    rw [start]
    omega

namespace Packed

@[simp] theorem length_distanceBytes (steps : Int) : (distanceBytes steps).length = 2 := by
  simp [distanceBytes]

namespace Payload

/-- The type of the nodes that have such a payload. -/
def type : Payload → NodeType
  | start => .start
  | wait _ => .wait
  | deleteObject _ => .deleteObject
  | sendEvent _ _ _ => .sendEvent
  | compare _ _ _ => .compare
  | value _ => .value
  | loop _ _ => .loop
  | function _ _ => .function

/-- Records are placed by the lengths that they are written with. -/
@[simp] theorem length_toBytes (data : Payload) : data.toBytes.length = data.size := by
  cases data <;> simp [toBytes, size]

end Payload

namespace Reader

/-- At an offset, a reader takes these bytes and gives this value. -/
def Reads {α : Type} (reader : Reader α) (offset : Nat) (bytes : List UInt8) (value : α) : Prop :=
  ∀ rest, reader ⟨bytes ++ rest, offset⟩ = .ok (value, ⟨rest, offset + bytes.length⟩)

namespace Reads

variable {α β : Type} {offset : Nat}

theorem pure (value : α) : Reads (Pure.pure value) offset [] value := fun _ => rfl

theorem bind {reader : Reader α} {next : α → Reader β} {bytes bytes' : List UInt8} {value : α}
    {value' : β} (first : Reads reader offset bytes value)
    (second : Reads (next value) (offset + bytes.length) bytes' value') :
    Reads (reader >>= next) offset (bytes ++ bytes') value' := by
  intro rest
  change (reader ⟨(bytes ++ bytes') ++ rest, offset⟩ >>= fun (value, cursor) => next value cursor)
    = _
  rw [List.append_assoc, first (bytes' ++ rest), List.length_append, ← Nat.add_assoc]
  exact second rest

theorem map {reader : Reader α} {bytes : List UInt8} {value : α} (f : α → β)
    (reads : Reads reader offset bytes value) :
    Reads (reader >>= fun value => Pure.pure (f value)) offset bytes (f value) :=
  List.append_nil bytes ▸ reads.bind (Reads.pure (f value))

/-- Asking for the cursor takes nothing. -/
theorem get {next : Cursor → Reader α} {bytes : List UInt8} {value : α}
    (reads : ∀ ahead, Reads (next ⟨ahead, offset⟩) offset bytes value) :
    Reads (MonadState.get >>= next) offset bytes value :=
  fun rest => reads (bytes ++ rest) rest

theorem number (offset width : Nat) {n : Nat} (small : n < 256 ^ width) (what : String) :
    Reads (Reader.number width what) offset (bigEndian width n) n := by
  intro rest
  have taken : (bigEndian width n ++ rest).take width = bigEndian width n :=
    List.take_left' (length_bigEndian width n)
  have left : (bigEndian width n ++ rest).drop width = rest :=
    List.drop_left' (length_bigEndian width n)
  simp [Reader.number, taken, left, ofBigEndian_bigEndian small]

theorem word8 (word : UInt8) (what : String) : Reads (Reader.word8 what) offset [word] word := by
  have reads := (number offset 1 word.toNat_lt what).map Nat.toUInt8
  have bytes : bigEndian 1 word.toNat = [word] := by simp [bigEndian]
  rwa [bytes, show word.toNat.toUInt8 = word from UInt8.ofNat_toNat] at reads

theorem word16 (word : UInt16) (what : String) :
    Reads (Reader.word16 what) offset (bigEndian 2 word.toNat) word := by
  have reads := (number offset 2 word.toNat_lt what).map Nat.toUInt16
  rwa [show word.toNat.toUInt16 = word from UInt16.ofNat_toNat] at reads

theorem word32 (word : UInt32) (what : String) :
    Reads (Reader.word32 what) offset (bigEndian 4 word.toNat) word := by
  have reads := (number offset 4 word.toNat_lt what).map Nat.toUInt32
  rwa [show word.toNat.toUInt32 = word from UInt32.ofNat_toNat] at reads

theorem distance {steps : Int} (low : -32768 ≤ steps) (high : steps < 32768) :
    Reads Reader.distance offset (distanceBytes steps) steps := by
  have small : (steps % 65536).toNat < 256 ^ 2 := by omega
  have reads := (number offset 2 small "output offset").map
    fun n : Nat => if n < 32768 then (n : Int) else n - 65536
  have same : (if (steps % 65536).toNat < 32768 then ((steps % 65536).toNat : Int)
      else (steps % 65536).toNat - 65536) = steps := by split <;> omega
  rwa [same] at reads

theorem distances {steps : List Int}
    (bounded : ∀ step ∈ steps, -32768 ≤ step ∧ step < 32768) :
    Reads (Reader.distances steps.length) offset (steps.flatMap distanceBytes) steps := by
  induction steps generalizing offset with
  | nil => exact .pure []
  | cons step rest ih =>
    obtain ⟨⟨low, high⟩, bounded⟩ := List.forall_mem_cons.mp bounded
    exact (distance low high).bind ((ih bounded).map (step :: ·))

theorem payload (start : Nat) (data : Payload) :
    Reads (Reader.payload start data.type) offset data.toBytes data := by
  cases data with
  | start => exact .pure Payload.start
  | wait millis => exact (word16 millis _).map Payload.wait
  | deleteObject object => exact (word16 object _).map Payload.deleteObject
  | sendEvent object eventType value =>
    rw [Payload.toBytes, List.append_assoc]
    exact (word16 object _).bind ((word16 eventType _).bind ((word32 value _).map _))
  | compare op a b =>
    have code : Reads (Reader.number 1 "compare type") offset [op.code.toUInt8] op.code := by
      have small : op.code < 256 ^ 1 := by cases op <;> decide
      simpa [bigEndian] using number offset 1 small "compare type"
    have bytes : (Payload.compare op a b).toBytes = [op.code.toUInt8] ++ ([0]
        ++ (bigEndian 4 a.toUInt32.toNat ++ bigEndian 4 b.toUInt32.toNat)) := rfl
    rw [bytes]
    refine code.bind ?_
    rw [CompareOp.ofCode?_code]
    exact (word8 0 _).bind ((word32 a.toUInt32 _).bind ((word32 b.toUInt32 _).map _))
  | value number => exact (word16 number _).map Payload.value
  | loop counterSlot count => exact (word8 counterSlot _).bind ((word8 count _).map _)
  | function hash argument => exact (word32 hash _).bind ((word32 argument _).map _)

end Reads

end Reader

end Packed

end NodeScript
