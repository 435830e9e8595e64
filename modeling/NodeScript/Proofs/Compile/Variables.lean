import Mathlib.Data.List.Nodup
import NodeScript.Compile.Assembly

/-!
The globals of a unit, told apart by what they are for. A name determines its variable, so a list
of variables without repetition stands for the whole table of declarations, and the slot of a
variable is its position in that list. Slots stay what they are when more variables are declared.
-/
namespace NodeScript

private theorem hexDigit_injective_below :
    ∀ a b : Fin 16, hexDigit a.val = hexDigit b.val → a = b := by decide

theorem mod_eq_of_hexDigit_eq {n m : Nat} (same : hexDigit n = hexDigit m) : n % 16 = m % 16 := by
  rw [← hexDigit_mod n, ← hexDigit_mod m] at same
  have equal := hexDigit_injective_below ⟨n % 16, Nat.mod_lt _ (by decide)⟩
    ⟨m % 16, Nat.mod_lt _ (by decide)⟩ same
  exact congrArg Fin.val equal

theorem mod_eq_of_hexDigits_eq (width : Nat) {n m : Nat}
    (same : hexDigits width n = hexDigits width m) :
    n % Nat.pow 16 width = m % Nat.pow 16 width := by
  induction width generalizing n m with
  | zero => simp [Nat.mod_one]
  | succ width ih =>
    simp only [hexDigits] at same
    obtain ⟨above, last⟩ := List.append_inj' same rfl
    have upper := ih above
    have lower := mod_eq_of_hexDigit_eq (List.cons.inj last).1
    have longer : Nat.pow 16 (width + 1) = 16 * Nat.pow 16 width := Nat.mul_comm ..
    rw [longer, Nat.mod_mul, Nat.mod_mul, upper, lower]

theorem hex64_injective {a b : UInt64} (same : hex64 a = hex64 b) : a = b := by
  have digits := mod_eq_of_hexDigits_eq 16 (String.ofList_injective same)
  have word (c : UInt64) : c.toNat < Nat.pow 16 16 := c.toNat_lt
  rw [Nat.mod_eq_of_lt (word a), Nat.mod_eq_of_lt (word b)] at digits
  exact UInt64.toNat_inj.mp digits

theorem hex32_injective {a b : UInt32} (same : hex32 a = hex32 b) : a = b := by
  have digits := mod_eq_of_hexDigits_eq 8 (String.ofList_injective same)
  have word (c : UInt32) : c.toNat < Nat.pow 16 8 := c.toNat_lt
  rw [Nat.mod_eq_of_lt (word a), Nat.mod_eq_of_lt (word b)] at digits
  exact UInt32.toNat_inj.mp digits

/-- What a global of a unit is for. -/
inductive Variable
  /-- How often a Repeat node has been entered. -/
  | counter (node : Uuid)
  /-- The last result of a Function node. -/
  | result (node : Uuid)
  /-- The user function with this name hash. -/
  | function (hash : UInt32)
  deriving DecidableEq, Repr

namespace Variable

def kind : Variable → GlobalKind
  | counter _ => .counter
  | result _ => .number
  | function hash => .function hash

def name : Variable → String
  | counter node => Assembly.nodeVariable "cnt" node
  | result node => Assembly.nodeVariable "res" node
  | function hash => "fn_" ++ hex32 hash

def declaration (v : Variable) : Declaration where
  global := ⟨v.name, v.kind, 0⟩
  type :=
    match v with
    | counter _ => "uint32_t"
    | result _ => "int"
    | function _ => "UserFunc"
  initialText :=
    match v with
    | function hash => "get_function(0x" ++ hex32 hash ++ ")"
    | _ => "0"

private theorem eq_of_append_eq {stem text other : String} (same : stem ++ text = stem ++ other) :
    text = other := by
  have letters := congrArg String.toList same
  simp only [String.toList_append] at letters
  exact String.toList_inj.mp (List.append_cancel_left letters)

/-- The first letter of a name tells what the variable is for, and the rest for which node or
hash. -/
theorem name_injective {v w : Variable} (same : v.name = w.name) : v = w := by
  cases v <;> cases w <;> simp only [name, Assembly.nodeVariable] at same
  case counter.counter =>
    simp only [String.append_assoc] at same
    rw [hex64_injective (eq_of_append_eq (eq_of_append_eq same))]
  case result.result =>
    simp only [String.append_assoc] at same
    rw [hex64_injective (eq_of_append_eq (eq_of_append_eq same))]
  case function.function => rw [hex32_injective (eq_of_append_eq same)]
  all_goals
    have letters := congrArg String.toList same
    simp [String.toList_append] at letters

/-- The expression that reads or writes a variable. -/
def text (v : Variable) : String := v.declaration.text

/-- No two variables are written alike: names within the state are told apart, and the name of a
function is none of them. -/
theorem text_injective {v w : Variable} (same : v.text = w.text) : v = w := by
  have letters := congrArg (fun text => text.toList.head?) same
  cases v <;> cases w
  case function.function => exact name_injective same
  case counter.function | result.function | function.counter | function.result =>
    simp [text, Declaration.text, Global.text, declaration, kind, GlobalKind.isInstanceScoped, name,
      String.toList_append] at letters
  all_goals exact name_injective (eq_of_append_eq same)

/-- The variables after one more has been declared. -/
def declare (vars : List Variable) (v : Variable) : List Variable :=
  if v ∈ vars then vars else vars ++ [v]

def declareAll (vars more : List Variable) : List Variable := more.foldl declare vars

@[simp] theorem declareAll_nil (vars : List Variable) : declareAll vars [] = vars := rfl

@[simp] theorem declareAll_cons (vars more : List Variable) (v : Variable) :
    declareAll vars (v :: more) = declareAll (declare vars v) more := rfl

theorem declareAll_append (vars more others : List Variable) :
    declareAll vars (more ++ others) = declareAll (declareAll vars more) others :=
  List.foldl_append

theorem prefix_declare (vars : List Variable) (v : Variable) : vars <+: declare vars v := by
  unfold declare
  split
  · exact List.prefix_rfl
  · exact List.prefix_append vars [v]

theorem prefix_declareAll (vars more : List Variable) : vars <+: declareAll vars more := by
  induction more generalizing vars with
  | nil => exact List.prefix_rfl
  | cons v rest ih => exact (prefix_declare vars v).trans (ih _)

theorem mem_declare (vars : List Variable) (v : Variable) : v ∈ declare vars v := by
  unfold declare
  split <;> simp_all

theorem mem_declareAll {vars more : List Variable} {v : Variable} (member : v ∈ more) :
    v ∈ declareAll vars more := by
  induction more generalizing vars with
  | nil => simp at member
  | cons w rest ih =>
    rcases List.mem_cons.mp member with rfl | member
    · exact (prefix_declareAll _ rest).subset (mem_declare vars v)
    · exact ih member

theorem nodup_declare {vars : List Variable} (distinct : vars.Nodup) (v : Variable) :
    (declare vars v).Nodup := by
  unfold declare
  split
  · exact distinct
  next missing => simpa using List.Nodup.concat missing distinct

theorem nodup_declareAll {vars : List Variable} (distinct : vars.Nodup) (more : List Variable) :
    (declareAll vars more).Nodup := by
  induction more generalizing vars with
  | nil => exact distinct
  | cons v rest ih => exact ih (nodup_declare distinct v)

theorem length_declareAll_le (vars more : List Variable) :
    (declareAll vars more).length ≤ vars.length + more.length := by
  induction more generalizing vars with
  | nil => exact Nat.le_refl _
  | cons v rest ih =>
    have first : (declare vars v).length ≤ vars.length + 1 := by
      unfold declare
      split <;> simp
    have others := ih (declare vars v)
    rw [declareAll_cons, List.length_cons]
    omega

/-- The slot of a declared variable. -/
def slotOf (vars : List Variable) (v : Variable) : Slot := (vars.idxOf v).toUInt16

theorem slotOf_longer {vars more : List Variable} {v : Variable} (longer : vars <+: more)
    (member : v ∈ vars) : slotOf more v = slotOf vars v := by
  obtain ⟨rest, rfl⟩ := longer
  rw [slotOf, slotOf, List.idxOf_append_of_mem member]

/-- Slots are exact while there are no more of them than a word can number. -/
theorem slotOf_toNat {vars : List Variable} {v : Variable} (member : v ∈ vars)
    (few : vars.length ≤ 65536) : (slotOf vars v).toNat = vars.idxOf v := by
  have inside := List.idxOf_lt_length_of_mem member
  exact UInt16.toNat_ofNat_of_lt' (Nat.lt_of_lt_of_le inside few)

theorem getElem?_slotOf {vars : List Variable} {v : Variable} (member : v ∈ vars)
    (few : vars.length ≤ 65536) : vars[(slotOf vars v).toNat]? = some v := by
  rw [slotOf_toNat member few]
  exact List.getElem?_idxOf member

/-- Variables have slots of their own. -/
theorem slotOf_injective {vars : List Variable} {v w : Variable} (member : v ∈ vars)
    (member' : w ∈ vars) (few : vars.length ≤ 65536) (same : slotOf vars v = slotOf vars w) :
    v = w := by
  have found := getElem?_slotOf member few
  rw [same, getElem?_slotOf member' few] at found
  exact (Option.some.inj found).symm

/-- The declarations of variables in the order of their slots. -/
def table (vars : List Variable) : Array Declaration := (vars.map declaration).toArray

theorem findIdx?_table (vars : List Variable) (v : Variable) :
    (table vars).findIdx? (fun d => d.global.name == v.name) =
      if v ∈ vars then some (vars.idxOf v) else none := by
  have same : (fun d : Declaration => d.global.name == v.name) ∘ declaration = (· == v) := by
    funext w
    have : (w.name == v.name) = (w == v) := by
      rw [Bool.eq_iff_iff]
      simp only [beq_iff_eq]
      exact ⟨name_injective, congrArg name⟩
    simpa [declaration] using this
  rw [table, List.findIdx?_toArray, List.findIdx?_map, same, List.findIdx?_eq_guard_findIdx_lt]
  change Option.guard _ (vars.idxOf v) = _
  simp [Option.guard, List.idxOf_lt_length_iff]

/-- Declaring a variable extends the table where it is new, and gives its slot either way. The slot
is the same in any longer table. -/
theorem declareGlobal_eq {a : Assembly} {vars fin : List Variable}
    (declared : a.globals = table vars)
    (v : Variable) (longer : declare vars v <+: fin) (text : Option String)
    (spelled : text.getD "0" = v.declaration.initialText) :
    a.declareGlobal v.declaration.type v.name v.kind 0 text =
      ({ a with globals := table (declare vars v) }, slotOf fin v) := by
  rw [slotOf_longer longer (mem_declare vars v), Assembly.declareGlobal, declared, findIdx?_table]
  by_cases member : v ∈ vars
  · simp only [member, if_true, declare, slotOf]
    rw [← declared]
  · have new : (vars ++ [v]).idxOf v = vars.length := by
      rw [List.idxOf_append_of_notMem member]
      simp
    have zero : toString (0 : Int64).toInt = "0" := by decide
    simp only [member, if_false, declare, slotOf, new]
    rw [zero, spelled]
    simp [table, declaration]

/-- How a variable of a finished unit is spelled while fewer are declared. -/
def spelling (vars fin : List Variable) (v : Variable) : String :=
  ((table vars)[(slotOf fin v).toNat]?.map Declaration.text).getD Assembly.invalid

theorem globalText_slotOf {a : Assembly} {vars : List Variable} (declared : a.globals = table vars)
    (fin : List Variable) (v : Variable) : a.globalText (slotOf fin v) = spelling vars fin v := by
  rw [Assembly.globalText, declared, spelling]

/-- A declared variable is spelled by its name as long as slots are exact. -/
theorem spelling_eq_text {vars fin : List Variable} {v : Variable} (member : v ∈ vars)
    (longer : vars <+: fin) (few : fin.length ≤ 65536) : spelling vars fin v = v.text := by
  have found := getElem?_slotOf member (Nat.le_trans longer.length_le few)
  rw [spelling, slotOf_longer longer member]
  simp [table, found, text]

end Variable

end NodeScript
