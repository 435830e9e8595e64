/-!
Fixed-width hexadecimal text. Identifiers in diagnostics and in generated source are always
written with the full width of their word, so that equal text means equal words.
-/
namespace NodeScript

/-- The upper-case digit for `n`, taken modulo sixteen. -/
def hexDigit (n : Nat) : Char :=
  if n % 16 < 10 then Char.ofNat (48 + n % 16) else Char.ofNat (55 + n % 16)

/-- The last `width` hexadecimal digits of `n`, most significant first. -/
def hexDigits : (width : Nat) → (n : Nat) → List Char
  | 0, _ => []
  | width + 1, n => hexDigits width (n / 16) ++ [hexDigit n]

/-- A 32-bit word as eight digits. -/
def hex32 (word : UInt32) : String := String.ofList (hexDigits 8 word.toNat)

/-- A 64-bit word as sixteen digits. -/
def hex64 (word : UInt64) : String := String.ofList (hexDigits 16 word.toNat)

theorem hexDigit_mod (n : Nat) : hexDigit (n % 16) = hexDigit n := by
  simp [hexDigit]

/-- What holds of the sixteen digits holds of hexadecimal text. -/
theorem forall_hexDigits {p : Char → Prop} (digits : ∀ k : Fin 16, p (hexDigit k.val))
    (width n : Nat) : ∀ c ∈ hexDigits width n, p c := by
  induction width generalizing n with
  | zero => simp [hexDigits]
  | succ width ih =>
    have last : p (hexDigit n) := hexDigit_mod n ▸ digits ⟨n % 16, Nat.mod_lt n (by decide)⟩
    exact List.forall_mem_append.mpr ⟨ih _, List.forall_mem_singleton.mpr last⟩

@[simp] theorem length_hexDigits (width n : Nat) : (hexDigits width n).length = width := by
  induction width generalizing n with
  | zero => rfl
  | succ width ih => simp [hexDigits, ih]

end NodeScript
