import Mathlib.Data.List.Induction
import Mathlib.Tactic.IntervalCases
import NodeScript.Proofs.Packed.Records

/-!
What readers of packed records take from bytes of any origin. A reader that succeeds has taken some
bytes from the front, which it takes whatever comes behind them and of which it misses every byte
that is not there; and these bytes spell what it gives, but for the byte that pads a comparison.
`Sound` says this of a reader, in a form in which readers are put together as they are run.
-/
namespace NodeScript

theorem bigEndian_ofBigEndian (bytes : List UInt8) :
    bigEndian bytes.length (ofBigEndian bytes) = bytes := by
  induction bytes using List.reverseRecOn with
  | nil => rfl
  | append_singleton front byte ih =>
    have low : byte.toNat < 256 := byte.toNat_lt
    have spelled : ofBigEndian (front ++ [byte]) = ofBigEndian front * 256 + byte.toNat := by
      simp [ofBigEndian]
    have quotient : (ofBigEndian front * 256 + byte.toNat) / 256 = ofBigEndian front := by omega
    have digit : (ofBigEndian front * 256 + byte.toNat).toUInt8 = byte := by
      apply UInt8.toNat.inj
      simp
    rw [List.length_append, List.length_singleton, bigEndian, spelled, quotient, digit, ih]

theorem ofBigEndian_lt (bytes : List UInt8) : ofBigEndian bytes < 256 ^ bytes.length := by
  induction bytes using List.reverseRecOn with
  | nil => exact Nat.one_pos
  | append_singleton front byte ih =>
    have low : byte.toNat < 256 := byte.toNat_lt
    have spelled : ofBigEndian (front ++ [byte]) = ofBigEndian front * 256 + byte.toNat := by
      simp [ofBigEndian]
    rw [spelled, List.length_append, List.length_singleton, Nat.pow_succ]
    omega

theorem NodeType.id_of_ofId? {id : Nat} {type : NodeType} (known : NodeType.ofId? id = some type) :
    type.id = id := by
  obtain ⟨inside, rfl⟩ := List.getElem?_eq_some_iff.mp known
  change id < 8 at inside
  interval_cases id <;> rfl

theorem CompareOp.code_of_ofCode? {code : Nat} {op : CompareOp}
    (known : CompareOp.ofCode? code = some op) : op.code = code := by
  obtain ⟨inside, rfl⟩ := List.getElem?_eq_some_iff.mp known
  change code < 6 at inside
  interval_cases code <;> rfl

namespace Packed

/-! Bytes that are not looked at -/

/-- Bytes of one length, the first at `offset`, that differ at loose positions at most. -/
structure Agree (loose : List Nat) (offset : Nat) (written read : List UInt8) : Prop where
  length : read.length = written.length
  same : ∀ index, offset + index ∉ loose → read[index]? = written[index]?

namespace Agree

variable {loose loose' : List Nat} {offset : Nat} {written written' read read' : List UInt8}

theorem refl (offset : Nat) (bytes : List UInt8) : Agree [] offset bytes bytes :=
  ⟨rfl, fun _ _ => rfl⟩

theorem of_eq (same : read = written) : Agree [] offset written read :=
  same ▸ refl offset read

/-- The second byte is loose. -/
theorem loosened (offset : Nat) (byte padding other : UInt8) :
    Agree [offset + 1] offset [byte, padding] [byte, other] := by
  refine ⟨rfl, fun index tight => ?_⟩
  match index with
  | 0 => rfl
  | 1 => exact absurd (List.mem_singleton_self _) tight
  | _ + 2 => rfl

theorem append (first : Agree loose offset written read)
    (second : Agree loose' (offset + written.length) written' read') :
    Agree (loose ++ loose') offset (written ++ written') (read ++ read') := by
  refine ⟨by rw [List.length_append, List.length_append, first.length, second.length], ?_⟩
  intro index tight
  obtain ⟨before, behind⟩ := not_or.mp (mt List.mem_append.mpr tight)
  rcases Nat.lt_or_ge index written.length with inside | beyond
  · rw [List.getElem?_append_left inside, List.getElem?_append_left (first.length ▸ inside)]
    exact first.same index before
  · rw [List.getElem?_append_right beyond, List.getElem?_append_right (first.length ▸ beyond),
      first.length]
    refine second.same _ ?_
    rwa [Nat.add_assoc, Nat.add_sub_cancel' beyond]

/-- The same bytes may stand in front. -/
theorem behind (front : List UInt8)
    (later : Agree loose (offset + front.length) written read) :
    Agree loose offset (front ++ written) (front ++ read) :=
  (refl offset front).append later

end Agree

/-- The position of the byte that pads a comparison whose payload begins at `offset`. -/
def Payload.padding (offset : Nat) : Payload → List Nat
  | .compare _ _ _ => [offset + 1]
  | _ => []

namespace Reader

variable {α β : Type} {offset : Nat}

/-! Readers that succeed -/

/-- A reader takes exactly these bytes: it leaves what comes behind them, and misses what is not
there of them. -/
structure Takes (reader : Reader α) (offset : Nat) (bytes : List UInt8) (value : α) : Prop where
  reads : Reads reader offset bytes value
  misses : ∀ part, part <+: bytes → part ≠ bytes →
    ∃ position what, reader ⟨part, offset⟩ = .error (.truncated position what)

/-- Where a reader succeeds it has taken bytes that mean its value. -/
def Sound (reader : Reader α) (offset : Nat) (Means : List UInt8 → α → Prop) : Prop :=
  ∀ bytes value cursor, reader ⟨bytes, offset⟩ = .ok (value, cursor) →
    ∃ taken, bytes = taken ++ cursor.rest ∧ Takes reader offset taken value ∧ Means taken value

theorem Takes.bind {reader : Reader α} {next : α → Reader β} {bytes bytes' : List UInt8} {value : α}
    {value' : β} (first : Takes reader offset bytes value)
    (second : Takes (next value) (offset + bytes.length) bytes' value') :
    Takes (reader >>= next) offset (bytes ++ bytes') value' := by
  refine ⟨first.reads.bind second.reads, fun part front short => ?_⟩
  have run : (reader >>= next) ⟨part, offset⟩ =
      (reader ⟨part, offset⟩ >>= fun (value, cursor) => next value cursor) := rfl
  rw [run]
  by_cases whole : bytes <+: part
  · obtain ⟨rest, rfl⟩ := whole
    rw [first.reads rest]
    exact second.misses rest ((List.prefix_append_right_inj bytes).mp front)
      fun same => short (congrArg (bytes ++ ·) same)
  · have inside : part <+: bytes :=
      (List.prefix_or_prefix_of_prefix front (List.prefix_append bytes bytes')).resolve_right whole
    obtain ⟨position, what, missed⟩ :=
      first.misses part inside fun same => whole (same ▸ List.prefix_refl part)
    exact ⟨position, what, by rw [missed]; rfl⟩

/-- What is not there of a number is missed where the number begins. -/
theorem Takes.number (offset width : Nat) {n : Nat} (small : n < 256 ^ width) (what : String) :
    Takes (Reader.number width what) offset (bigEndian width n) n := by
  refine ⟨.number offset width small what, fun part front short => ⟨offset, what, ?_⟩⟩
  have fewer : part.length < width := by
    rw [← length_bigEndian width n]
    exact Nat.lt_of_le_of_ne front.length_le fun same => short (front.eq_of_length same)
  rw [Reader.number, List.take_of_length_le (Nat.le_of_lt fewer)]
  exact if_neg (Nat.ne_of_lt fewer)

namespace Sound

variable {Means : List UInt8 → α → Prop}

theorem pure {value : α} (means : Means [] value) : Sound (Pure.pure value) offset Means := by
  intro bytes given cursor success
  cases success
  exact ⟨[], rfl, ⟨.pure value, fun part front short => absurd (List.prefix_nil.mp front) short⟩,
    means⟩

theorem fail (error : DecodeError) : Sound (throw error) offset Means := by
  intro bytes value cursor success
  cases success

theorem bind {reader : Reader α} {next : α → Reader β} {Means' : List UInt8 → β → Prop}
    (first : Sound reader offset Means)
    (second : ∀ taken value, Means taken value →
      Sound (next value) (offset + taken.length) fun later result => Means' (taken ++ later) result) :
    Sound (reader >>= next) offset Means' := by
  intro bytes result cursor success
  obtain ⟨⟨value, ahead, place⟩, begun, ended⟩ := bind_eq_ok_iff.mp success
  obtain ⟨taken, rfl, takes, means⟩ := first _ _ _ begun
  obtain rfl : place = offset + taken.length := by
    have read := begun.symm.trans (takes.reads ahead)
    exact (Cursor.mk.inj (Prod.mk.inj (Except.ok.inj read)).2).2
  obtain ⟨later, left, takes', means'⟩ := second taken value means _ _ _ ended
  exact ⟨taken ++ later, by rw [List.append_assoc, ← left], takes.bind takes', means'⟩

/-- A reader that asks for the cursor may use the offset, but not what is ahead. -/
theorem get {next : Cursor → Reader α}
    (blind : ∀ ahead, next ⟨ahead, offset⟩ = next ⟨[], offset⟩)
    (sound : Sound (next ⟨[], offset⟩) offset Means) :
    Sound (MonadState.get >>= next) offset Means := by
  have run (bytes : List UInt8) : (MonadState.get >>= next) ⟨bytes, offset⟩ =
      next ⟨[], offset⟩ ⟨bytes, offset⟩ := congrFun (blind bytes) _
  intro bytes value cursor success
  rw [run] at success
  obtain ⟨taken, front, takes, means⟩ := sound bytes value cursor success
  refine ⟨taken, front, ⟨fun rest => ?_, fun part inside short => ?_⟩, means⟩
  · rw [run]
    exact takes.reads rest
  · rw [run]
    exact takes.misses part inside short

theorem number (width : Nat) (what : String) :
    Sound (Reader.number width what) offset fun bytes n =>
      bytes = bigEndian width n ∧ n < 256 ^ width := by
  intro bytes n cursor success
  rw [Reader.number] at success
  split at success
  next whole =>
    cases success
    have spelled := bigEndian_ofBigEndian (bytes.take width)
    have small := ofBigEndian_lt (bytes.take width)
    rw [whole] at spelled small
    refine ⟨bytes.take width, (List.take_append_drop width bytes).symm, ?_, spelled.symm, small⟩
    have takes := Takes.number offset width small what
    rwa [spelled] at takes
  next => cases success

theorem word8 (what : String) :
    Sound (Reader.word8 what) offset fun bytes word => bytes = [word] :=
  (number 1 what).bind fun _ _ ⟨taken, _⟩ => .pure (by simp [taken, bigEndian])

theorem word16 (what : String) :
    Sound (Reader.word16 what) offset fun bytes word => bytes = bigEndian 2 word.toNat :=
  (number 2 what).bind fun _ _ ⟨taken, small⟩ =>
    .pure (by rw [List.append_nil, taken, Nat.toUInt16, UInt16.toNat_ofNat_of_lt' small])

theorem word32 (what : String) :
    Sound (Reader.word32 what) offset fun bytes word => bytes = bigEndian 4 word.toNat :=
  (number 4 what).bind fun _ _ ⟨taken, small⟩ =>
    .pure (by rw [List.append_nil, taken, Nat.toUInt32, UInt32.toNat_ofNat_of_lt' small])

theorem distance :
    Sound Reader.distance offset fun bytes steps => bytes = distanceBytes steps := by
  refine (number 2 _).bind fun taken n ⟨spelled, small⟩ => .pure ?_
  have same : ((if n < 32768 then (n : Int) else n - 65536) % 65536).toNat = n := by
    split <;> omega
  rw [List.append_nil, spelled, distanceBytes, same]

theorem distances (count : Nat) :
    Sound (Reader.distances count) offset fun bytes steps =>
      steps.length = count ∧ bytes = steps.flatMap distanceBytes := by
  induction count generalizing offset with
  | zero => exact .pure ⟨rfl, rfl⟩
  | succ count ih =>
    refine distance.bind fun taken step first => ih.bind fun others steps ⟨length, rest⟩ => ?_
    exact .pure ⟨congrArg (· + 1) length, by rw [first, rest, List.append_nil]; rfl⟩

open Payload (toBytes) in
theorem payload (start : Nat) (type : NodeType) :
    Sound (Reader.payload start type) offset fun bytes data =>
      data.type = type ∧ Agree (data.padding offset) offset data.toBytes bytes := by
  cases type with
  | start => exact .pure ⟨rfl, .refl offset []⟩
  | wait =>
    exact (word16 _).bind fun _ millis taken => .pure ⟨rfl, .of_eq (by simp [taken, toBytes])⟩
  | deleteObject =>
    exact (word16 _).bind fun _ object taken => .pure ⟨rfl, .of_eq (by simp [taken, toBytes])⟩
  | sendEvent =>
    exact (word16 _).bind fun _ object first => (word16 _).bind fun _ eventType second =>
      (word32 _).bind fun _ value third =>
        .pure ⟨rfl, .of_eq (by simp [first, second, third, toBytes])⟩
  | compare =>
    refine (number 1 _).bind fun _ code tagged => ?_
    obtain ⟨first, -⟩ := tagged
    cases known : CompareOp.ofCode? code with
    | none => exact .fail _
    | some op =>
      refine (word8 _).bind fun _ pad second => (word32 _).bind fun _ a third =>
        (word32 _).bind fun _ b fourth => .pure ⟨rfl, ?_⟩
      have code : [op.code.toUInt8] = bigEndian 1 code := by
        simp [bigEndian, CompareOp.code_of_ofCode? known]
      have padded := (Agree.loosened offset op.code.toUInt8 0 pad).append
        (.refl _ (bigEndian 4 a.toNat ++ bigEndian 4 b.toNat))
      rw [List.append_nil] at padded
      simpa [first, second, third, fourth, toBytes, Payload.padding, ← code] using padded
  | value =>
    exact (word16 _).bind fun _ number taken => .pure ⟨rfl, .of_eq (by simp [taken, toBytes])⟩
  | loop =>
    exact (word8 _).bind fun _ slot first => (word8 _).bind fun _ count second =>
      .pure ⟨rfl, .of_eq (by simp [first, second, toBytes])⟩
  | function =>
    exact (word32 _).bind fun _ hash first => (word32 _).bind fun _ argument second =>
      .pure ⟨rfl, .of_eq (by simp [first, second, toBytes])⟩

end Sound

end Reader

end Packed

end NodeScript
