import Mathlib.Data.List.DropRight
import NodeScript.Json.Printer

/-!
The numbers that the printer writes are literals. An integer is its decimal digits, and reading
them gives the integer back while it fits a word. A finite floating-point number is digits with a
point or an exponent among them, which is a literal in either layout; what its value is when it is
read is another matter, as reading rounds.
-/
namespace NodeScript

/-- The decimal digits of a number. -/
theorem isDigit_of_mem_digits {n : Nat} {c : Char} (member : c ∈ Nat.toDigits 10 n) :
    c.isDigit = true := Nat.isDigit_of_mem_toDigits (by decide) (by decide) member

/-- Only zero is written with a leading zero. -/
theorem head?_toDigits {n : Nat} (positive : 0 < n) : (Nat.toDigits 10 n).head? ≠ some '0' := by
  induction n using Nat.strongRecOn with
  | ind n ih =>
    by_cases small : n < 10
    · have nonzero : ∀ d < 10, 0 < d → [Nat.digitChar d].head? ≠ some '0' := by decide
      rw [Nat.toDigits_of_lt_base small]
      exact nonzero n small positive
    · have split := Nat.toDigits_of_base_le (b := 10) (by decide) (Nat.le_of_not_lt small)
      rw [split, List.head?_append_of_ne_nil _ Nat.toDigits_ne_nil]
      exact ih (n / 10) (by omega) (by omega)

namespace Json

/-- How a number is spelled, in characters. -/
structure Spelling where
  negative : Bool
  whole : List Char
  /-- Empty where there is no point. -/
  fraction : List Char
  /-- Whether the exponent is negative, and its digits. -/
  exponent : Option (Bool × List Char)
  whole_ne_nil : whole ≠ []
  whole_digits : ∀ c ∈ whole, c.isDigit = true
  /-- A leading zero stands alone. -/
  zero_alone : whole.head? = some '0' → whole.length = 1
  fraction_digits : ∀ c ∈ fraction, c.isDigit = true
  exponent_ne_nil : ∀ e ∈ exponent, e.2 ≠ []
  exponent_digits : ∀ e ∈ exponent, ∀ c ∈ e.2, c.isDigit = true

namespace Spelling

variable (s : Spelling)

def fractionText : List Char := if s.fraction = [] then [] else '.' :: s.fraction

def exponentText : List Char :=
  match s.exponent with
  | none => []
  | some (negative, digits) => 'e' :: (if negative then '-' else '+') :: digits

def unsigned : List Char := s.whole ++ (s.fractionText ++ s.exponentText)

def text : List Char := if s.negative then '-' :: s.unsigned else s.unsigned

def literal : Literal :=
  ⟨s.negative, s.whole.map digitValue, s.fraction.map digitValue,
    s.exponent.map fun (negative, digits) => (negative, digits.map digitValue)⟩

theorem exponentOfChars?_exponentText :
    Literal.exponentOfChars? s.exponentText = some s.literal.exponent := by
  unfold exponentText literal
  cases found : s.exponent with
  | none => rfl
  | some exponent =>
    obtain ⟨negative, digits⟩ := exponent
    have nonempty : digits ≠ [] := s.exponent_ne_nil _ found
    have all : digits.all Char.isDigit = true := List.all_eq_true.mpr (s.exponent_digits _ found)
    cases negative <;> simp [Literal.exponentOfChars?, nonempty, all]

/-- An exponent begins with no digit and no point. -/
theorem head?_exponentText {c : Char} (first : s.exponentText.head? = some c) : c = 'e' := by
  unfold exponentText at first
  cases found : s.exponent with
  | none => simp [found] at first
  | some exponent => simpa [found] using first.symm

theorem takeWhile_digits {digits rest : List Char} (all : ∀ c ∈ digits, c.isDigit = true)
    (apart : ∀ c ∈ rest.head?, c.isDigit = false) :
    (digits ++ rest).takeWhile Char.isDigit = digits ∧
      (digits ++ rest).dropWhile Char.isDigit = rest := by
  rw [List.takeWhile_append_of_pos all, List.dropWhile_append_of_pos all]
  cases rest with
  | nil => simp
  | cons c rest => simp [apart c rfl]

theorem tailOfChars?_text :
    Literal.tailOfChars? (s.fractionText ++ s.exponentText) =
      some (s.literal.fraction, s.literal.exponent) := by
  unfold fractionText
  by_cases none : s.fraction = []
  · rw [if_pos none, List.nil_append]
    have start : ∀ rest, s.exponentText ≠ '.' :: rest := fun rest equal =>
      absurd (s.head?_exponentText (by rw [equal]; rfl)) (by decide)
    rw [Literal.tailOfChars?.eq_2 _ start, exponentOfChars?_exponentText]
    simp [literal, none]
  · rw [if_neg none, List.cons_append, Literal.tailOfChars?]
    have apart : ∀ c ∈ s.exponentText.head?, c.isDigit = false := fun c first =>
      s.head?_exponentText first ▸ rfl
    obtain ⟨taken, left⟩ := takeWhile_digits s.fraction_digits apart
    simp [taken, left, none, exponentOfChars?_exponentText, literal]

theorem unsignedOfChars?_unsigned :
    Literal.unsignedOfChars? s.negative s.unsigned = some s.literal := by
  have apart : ∀ c ∈ (s.fractionText ++ s.exponentText).head?, c.isDigit = false := by
    intro c first
    unfold fractionText at first
    by_cases none : s.fraction = []
    · rw [if_pos none, List.nil_append] at first
      exact s.head?_exponentText first ▸ rfl
    · rw [if_neg none, List.cons_append] at first
      exact Option.some.inj first ▸ rfl
  obtain ⟨taken, left⟩ := takeWhile_digits s.whole_digits apart
  have alone : ¬ (s.whole.head? = some '0' ∧ 1 < s.whole.length) := fun ⟨zero, long⟩ =>
    absurd (s.zero_alone zero) (by omega)
  rw [Literal.unsignedOfChars?, unsigned, taken, left, tailOfChars?_text]
  simp [s.whole_ne_nil, alone, literal]

/-- A spelling is read as its literal. -/
theorem ofChars?_text : Literal.ofChars? s.text = some s.literal := by
  have read := s.unsignedOfChars?_unsigned
  unfold text
  cases sign : s.negative with
  | true =>
    rw [sign] at read
    exact read
  | false =>
    rw [sign] at read
    have start : ∀ rest, s.unsigned ≠ '-' :: rest := by
      intro rest equal
      obtain ⟨c, others, whole⟩ := List.exists_cons_of_ne_nil s.whole_ne_nil
      have digit := s.whole_digits c (whole ▸ List.mem_cons_self ..)
      have first : c = '-' := by
        rw [unsigned, whole, List.cons_append] at equal
        exact (List.cons.inj equal).1
      rw [first] at digit
      exact absurd digit (by decide)
    exact (Literal.ofChars?.eq_2 _ start).trans read

/-- A spelling begins with a digit or a sign. -/
theorem text_cons : ∃ c rest, s.text = c :: rest ∧ (c.isDigit = true ∨ c = '-') := by
  obtain ⟨c, others, whole⟩ := List.exists_cons_of_ne_nil s.whole_ne_nil
  unfold text
  split
  · exact ⟨'-', _, rfl, .inr rfl⟩
  · exact ⟨c, others ++ (s.fractionText ++ s.exponentText), by rw [unsigned, whole]; rfl,
      .inl (s.whole_digits c (whole ▸ List.mem_cons_self ..))⟩

theorem isNumeric_of_mem_text {c : Char} (member : c ∈ s.text) : Lexer.isNumeric c = true := by
  have digit {c : Char} (digit : c.isDigit = true) : Lexer.isNumeric c = true := by
    simp [Lexer.isNumeric, digit]
  have fraction : ∀ c ∈ s.fractionText, Lexer.isNumeric c = true := by
    unfold fractionText
    split
    · exact fun c member => absurd member List.not_mem_nil
    · exact List.forall_mem_cons.mpr ⟨rfl, fun c member => digit (s.fraction_digits c member)⟩
  have exponent : ∀ c ∈ s.exponentText, Lexer.isNumeric c = true := by
    unfold exponentText
    cases found : s.exponent with
    | none => exact fun c member => absurd member List.not_mem_nil
    | some e =>
      obtain ⟨negative, digits⟩ := e
      refine List.forall_mem_cons.mpr ⟨rfl, List.forall_mem_cons.mpr ⟨?_, ?_⟩⟩
      · cases negative <;> rfl
      · exact fun c member => digit (s.exponent_digits _ found c member)
  have unsigned : ∀ c ∈ s.unsigned, Lexer.isNumeric c = true := by
    intro c member
    rcases List.mem_append.mp member with whole | member
    · exact digit (s.whole_digits c whole)
    · exact (List.mem_append.mp member).elim (fraction c) (exponent c)
  unfold text at member
  split at member
  · rcases List.mem_cons.mp member with rfl | member
    · rfl
    · exact unsigned c member
  · exact unsigned c member

end Spelling

/-! ### Integers -/

/-- The spelling of an integer. -/
def Spelling.ofInt (n : Int) : Spelling where
  negative := decide (n < 0)
  whole := Nat.toDigits 10 n.natAbs
  fraction := []
  exponent := none
  whole_ne_nil := Nat.toDigits_ne_nil
  whole_digits _ member := isDigit_of_mem_digits member
  zero_alone zero := by
    by_cases positive : 0 < n.natAbs
    · exact absurd zero (head?_toDigits positive)
    · rw [Nat.eq_zero_of_not_pos positive]
      rfl
  fraction_digits _ member := absurd member List.not_mem_nil
  exponent_ne_nil _ member := absurd member (by simp)
  exponent_digits _ member := absurd member (by simp)

theorem text_ofInt (n : Int) : (Spelling.ofInt n).text = intText n := by
  simp [Spelling.text, Spelling.unsigned, Spelling.fractionText, Spelling.exponentText,
    Spelling.ofInt, intText]

theorem ofDigits_toDigits (n : Nat) : ofDigits ((Nat.toDigits 10 n).map digitValue) = n := by
  have read : Nat.ofDigitChars 10 (Nat.toDigits 10 n) 0 = n := Nat.ofDigitChars_ten_toDigits
  rw [Nat.ofDigitChars_eq_foldl] at read
  simpa [ofDigits, digitValue, List.foldl_map, Nat.mul_comm] using read

/-- An integer that fits a word is read back. -/
theorem number?_ofInt {n : Int} (least : -0x8000000000000000 ≤ n) (most : n < Literal.wordBound) :
    (Spelling.ofInt n).literal.number? = some (.int n) := by
  have value : ofDigits (Spelling.ofInt n).literal.whole = n.natAbs := ofDigits_toDigits n.natAbs
  have whole : (Spelling.ofInt n).literal.isWhole = true := rfl
  have sign : (Spelling.ofInt n).literal.negative = decide (n < 0) := rfl
  rw [Literal.number?, value, whole, sign]
  by_cases below : n < 0
  · have magnitude : 0 < n.natAbs ∧ n.natAbs ≤ 0x8000000000000000 := by omega
    have back : -(n.natAbs : Int) = n := by omega
    rw [back]
    simp [below, magnitude]
  · have fits : n.natAbs < Literal.wordBound := by omega
    have back : (n.natAbs : Int) = n := by omega
    simp [below, fits, back]

end Json

/-! ### Floating-point numbers -/

/-- A decimal with digits, the first of which is not zero. -/
structure Decimal.Normal (d : Decimal) : Prop where
  nonempty : d.digits ≠ []
  digits : ∀ c ∈ d.digits, c.isDigit = true
  leading : d.digits.head? ≠ some '0'

theorem Decimal.normal_ofScaled {n : Nat} (positive : 0 < n) (exponent : Int) :
    (ofScaled n exponent).Normal := by
  have first := head?_toDigits positive
  have kept : (ofScaled n exponent).digits = (Nat.toDigits 10 n).rdropWhile (· == '0') := rfl
  obtain ⟨zeros, start⟩ : (ofScaled n exponent).digits <+: Nat.toDigits 10 n := by
    rw [kept]
    exact List.rdropWhile_prefix _ _
  have nonempty : (ofScaled n exponent).digits ≠ [] := by
    rw [kept, Ne, List.rdropWhile_eq_nil_iff]
    intro zeros
    obtain ⟨c, rest, digits⟩ := List.exists_cons_of_ne_nil (Nat.toDigits_ne_nil (n := n) (b := 10))
    have zero := zeros c (digits ▸ List.mem_cons_self ..)
    rw [digits] at first
    exact first (congrArg some (eq_of_beq zero))
  rw [← start] at first
  refine ⟨nonempty, fun c member => ?_, ?_⟩
  · exact isDigit_of_mem_digits (n := n) (start ▸ List.mem_append_left zeros member)
  · rwa [List.head?_append_of_ne_nil _ nonempty] at first

namespace Format

variable {F : Format}

theorem round_zero (precise : 0 < F.precision) (den : Nat) : F.round 0 den = 0 := by
  have shift : 1 - F.precision = 0 := by omega
  have nearest (den : Nat) : roundHalfEven 0 den = 0 := by simp [roundHalfEven]
  simp [round, shift, nearest]

theorem units_pos {magnitude : Nat} (nonzero : magnitude ≠ 0) : 0 < F.units magnitude := by
  have stride : 0 < F.stride := Nat.pow_pos (by decide)
  unfold units
  dsimp only
  split
  · next field =>
    have small := (Nat.div_eq_zero_iff_lt stride).mp field
    rw [Nat.mod_eq_of_lt small]
    exact Nat.pos_of_ne_zero nonzero
  · exact Nat.mul_pos (by omega) (Nat.pow_pos (by decide))

theorem readsBack_pos (precise : 0 < F.precision) {magnitude n : Nat} {exponent : Int}
    (nonzero : magnitude ≠ 0) (reads : F.readsBack magnitude n exponent = true) : 0 < n := by
  refine Nat.pos_of_ne_zero fun zero => nonzero ?_
  subst zero
  cases exponent with
  | ofNat up =>
    rw [readsBack, Nat.zero_mul, round_zero precise] at reads
    exact (eq_of_beq reads).symm
  | negSucc down =>
    rw [readsBack, round_zero precise] at reads
    exact (eq_of_beq reads).symm

theorem gridPoint?_normal (precise : 0 < F.precision) {magnitude num den : Nat} {point : Int}
    {count : Nat} {d : Decimal} (nonzero : magnitude ≠ 0)
    (found : F.gridPoint? magnitude num den point count = some d) : d.Normal := by
  unfold gridPoint? at found
  rcases ite_eq_iff.mp found with ⟨reads, same⟩ | ⟨-, found⟩
  · rw [← Option.some.inj same]
    exact Decimal.normal_ofScaled (readsBack_pos precise nonzero reads) _
  · obtain ⟨reads, same⟩ := Option.ite_none_right_eq_some.mp found
    rw [← Option.some.inj same]
    exact Decimal.normal_ofScaled (readsBack_pos precise nonzero reads) _

theorem shortest_normal (precise : 0 < F.precision) {magnitude : Nat} (nonzero : magnitude ≠ 0) :
    (F.shortest magnitude).Normal := by
  unfold shortest
  dsimp only
  cases found : (List.range 17).findSome? fun i => F.gridPoint? magnitude (F.units magnitude)
      F.unitsPerOne (pointOf (F.units magnitude) F.unitsPerOne) (i + 1) with
  | none => exact Decimal.normal_ofScaled (units_pos nonzero) 0
  | some d =>
    obtain ⟨i, -, point⟩ := List.exists_of_findSome?_eq_some found
    exact gridPoint?_normal precise nonzero point

end Format

namespace DecimalStyle

open Json (Spelling)

/-- The decimal laid out with its sign, positionally. -/
theorem exists_positional {d : Decimal} (normal : d.Normal) (negative : Bool) :
    ∃ s : Spelling, s.negative = negative ∧ s.unsigned = positional d := by
  have zeros (count : Nat) : ∀ c ∈ List.replicate count '0', c.isDigit = true :=
    fun c member => List.eq_of_mem_replicate member ▸ rfl
  have zero : ∀ c ∈ ['0'], c.isDigit = true := List.forall_mem_singleton.mpr rfl
  have no_exponent {P : Bool × List Char → Prop} : ∀ e ∈ (none : Option (Bool × List Char)), P e :=
    fun e member => absurd member (by simp)
  unfold positional
  split
  · -- The point stands before all digits, behind a zero of its own.
    refine ⟨⟨negative, ['0'], List.replicate (-d.point).toNat '0' ++ d.digits, none,
      List.cons_ne_nil _ _, zero, fun _ => rfl, ?_, no_exponent, no_exponent⟩, rfl, ?_⟩
    · exact fun c member => (List.mem_append.mp member).elim (zeros _ c) (normal.digits c)
    · simp [Spelling.unsigned, Spelling.fractionText, Spelling.exponentText, normal.nonempty]
  · dsimp only
    split
    · -- The point stands behind all digits, which are filled up with zeros.
      refine ⟨⟨negative, d.digits ++ List.replicate (d.point.toNat - d.digits.length) '0', ['0'],
        none, by simp [normal.nonempty], ?_, ?_, zero, no_exponent, no_exponent⟩, rfl, ?_⟩
      · exact fun c member => (List.mem_append.mp member).elim (normal.digits c) (zeros _ c)
      · intro first
        rw [List.head?_append_of_ne_nil _ normal.nonempty] at first
        exact absurd first normal.leading
      · simp [Spelling.unsigned, Spelling.fractionText, Spelling.exponentText]
    · next positive inside =>
      -- The point stands among the digits, and some are left on both sides.
      have left : d.digits.drop d.point.toNat ≠ [] := by
        rw [Ne, List.drop_eq_nil_iff]
        exact inside
      have taken : d.digits.take d.point.toNat ≠ [] := by
        rw [Ne, List.take_eq_nil_iff]
        exact not_or.mpr ⟨by omega, normal.nonempty⟩
      refine ⟨⟨negative, d.digits.take d.point.toNat, d.digits.drop d.point.toNat, none, taken,
        fun c member => normal.digits c (List.mem_of_mem_take member), ?_,
        fun c member => normal.digits c (List.mem_of_mem_drop member), no_exponent, no_exponent⟩,
        rfl, ?_⟩
      · intro first
        rw [List.head?_take, if_neg (by omega)] at first
        exact absurd first normal.leading
      · simp [Spelling.unsigned, Spelling.fractionText, Spelling.exponentText, left]

/-- The decimal laid out with its sign and an exponent. -/
theorem exists_scientific {d : Decimal} (normal : d.Normal) (negative : Bool) :
    ∃ s : Spelling, s.negative = negative ∧ s.unsigned = scientific d := by
  obtain ⟨first, rest, digits⟩ := List.exists_cons_of_ne_nil normal.nonempty
  have all := normal.digits
  rw [digits] at all
  obtain ⟨one, others⟩ := List.forall_mem_cons.mp all
  refine ⟨⟨negative, [first], rest, some (decide (d.point - 1 < 0),
    Nat.toDigits 10 (d.point - 1).natAbs), by simp, by simpa using one, fun _ => rfl, others,
    ?_, ?_⟩, rfl, ?_⟩
  · intro e member
    obtain rfl := Option.some.inj member
    exact Nat.toDigits_ne_nil
  · intro e member c digit
    obtain rfl := Option.some.inj member
    exact isDigit_of_mem_digits digit
  · cases rest with
    | nil =>
      simp [Spelling.unsigned, Spelling.fractionText, Spelling.exponentText, scientific, digits]
    | cons second rest =>
      simp [Spelling.unsigned, Spelling.fractionText, Spelling.exponentText, scientific, digits]

/-- What is rendered is the spelling of a number. -/
theorem exists_spelling {F : Format} (precise : 0 < F.precision) (style : DecimalStyle)
    (x : Binary F) : ∃ s : Spelling, s.text = style.render x := by
  obtain ⟨s, sign, body⟩ : ∃ s : Spelling, s.negative = x.negative ∧ s.unsigned =
      if x.magnitude = 0 then ['0', '.', '0'] else style.layout (F.shortest x.magnitude) := by
    split
    · have zero : ∀ c ∈ ['0'], c.isDigit = true := List.forall_mem_singleton.mpr rfl
      exact ⟨⟨x.negative, ['0'], ['0'], none, List.cons_ne_nil _ _, zero, fun _ => rfl, zero,
        by simp, by simp⟩, rfl, rfl⟩
    · next nonzero =>
      have normal := F.shortest_normal precise nonzero
      unfold layout
      split
      · exact exists_positional normal x.negative
      · exact exists_scientific normal x.negative
  exact ⟨s, by rw [Spelling.text, sign, body]; rfl⟩

end DecimalStyle

end NodeScript
