import NodeScript.Source.Statement
import NodeScript.Text.Hex

/-!
The names that a source text defines at file scope, told line by line. A definition begins at the
margin with a word for what is defined: a function reference, a state structure, a function, a
number or an array. What is indented is inside of something.
-/
namespace NodeScript.Source

/-- Letters of names. -/
def isNameLetter (c : Char) : Bool := c.isAlphanum || c == '_'

/-- What stands before the name in a line that defines one. The name of a structure follows its
fields. -/
def introductions : List String :=
  ["UserFunc ", "\x7d ", "void ", "#define ", "const uint16_t ", "ScriptFn "]

/-- The name that a line defines. -/
def definition? (line : List Char) : Option String :=
  (introductions.find? fun start => start.toList.isPrefixOf line).map fun start =>
    String.ofList ((line.drop start.length).takeWhile isNameLetter)

/-- The names that a text defines, in order. -/
def definitions (text : String) : List String :=
  (text.toList.splitOn '\n').filterMap definition?

/-- Names are told from what is indented, from comments and from labels. -/
example : definitions "// f\nvoid f(int a) \x7b\n  \x7d else \x7b\nvoid_g:\n\x7d\n#define G 1\n" =
    ["f", "G"] := by decide +kernel

/-- The text is on one line. -/
def OneLine (text : String) : Prop := '\n' ∉ text.toList

instance (text : String) : Decidable (OneLine text) := inferInstanceAs (Decidable (_ ∉ _))

@[simp] theorem oneLine_append (s t : String) : OneLine (s ++ t) ↔ OneLine s ∧ OneLine t := by
  simp [OneLine]

theorem oneLine_ofList (letters : List Char) : OneLine (String.ofList letters) ↔ '\n' ∉ letters := by
  simp [OneLine]

theorem oneLine_indentation (steps : Nat) : OneLine (indentation steps) := by
  simp [indentation, oneLine_ofList]

/-- The text has letters of names only. -/
def IsName (text : String) : Prop := text.toList.all isNameLetter = true

instance (text : String) : Decidable (IsName text) := inferInstanceAs (Decidable (_ = _))

@[simp] theorem isName_append (s t : String) : IsName (s ++ t) ↔ IsName s ∧ IsName t := by
  simp [IsName]

theorem isName_hexDigits (width n : Nat) : IsName (String.ofList (hexDigits width n)) := by
  rw [IsName, String.toList_ofList, List.all_eq_true]
  exact forall_hexDigits (by decide) width n

theorem isName_hex64 (word : UInt64) : IsName (hex64 word) := isName_hexDigits 16 _

theorem isName_hex32 (word : UInt32) : IsName (hex32 word) := isName_hexDigits 8 _

theorem IsName.oneLine {text : String} (name : IsName text) : OneLine text := by
  intro member
  have letter := List.all_eq_true.mp name _ member
  revert letter
  decide

theorem oneLine_hex64 (word : UInt64) : OneLine (hex64 word) := (isName_hex64 word).oneLine

theorem oneLine_hex32 (word : UInt32) : OneLine (hex32 word) := (isName_hex32 word).oneLine

theorem isName_repr (n : Nat) : IsName n.repr := by
  rw [IsName, List.all_eq_true, Nat.toList_repr]
  intro c member
  have digit := Nat.isDigit_of_mem_toDigits (by decide) (by decide) member
  simp [isNameLetter, Char.isAlphanum, digit]

theorem oneLine_toString (value : Int) : OneLine (toString value) := by
  rw [Int.toString_eq_repr, Int.repr_eq_if]
  split
  · exact (isName_repr _).oneLine
  · exact (oneLine_append _ _).mpr ⟨by decide, (isName_repr _).oneLine⟩

theorem oneLine_intercalate {separator : String} (whole : OneLine separator) {values : List String}
    (each : ∀ value ∈ values, OneLine value) : OneLine (separator.intercalate values) := by
  induction values with
  | nil => exact (by decide : OneLine "")
  | cons first rest ih =>
    obtain ⟨head, others⟩ := List.forall_mem_cons.mp each
    cases rest with
    | nil => simpa using head
    | cons second rest =>
      rw [String.intercalate_cons_cons]
      simp only [oneLine_append]
      exact ⟨⟨head, whole⟩, ih others⟩

/-- The name of a definition ends where its letters end. -/
theorem definition?_introduced {start name rest : String} (known : start ∈ introductions)
    (letters : IsName name) (ended : rest.toList.head?.all (!isNameLetter ·) = true) :
    definition? (start ++ name ++ rest).toList = some name := by
  rw [String.toList_append, String.toList_append, List.append_assoc]
  have taken : (name.toList ++ rest.toList).takeWhile isNameLetter = name.toList := by
    rw [List.takeWhile_append_of_pos (List.all_eq_true.mp letters)]
    cases behind : rest.toList with
    | nil => simp
    | cons c others =>
      rw [List.takeWhile_cons_of_neg (by simpa [behind] using ended), List.append_nil]
  have found : introductions.find? (fun word =>
      word.toList.isPrefixOf (start.toList ++ (name.toList ++ rest.toList))) = some start := by
    simp only [introductions, List.mem_cons, List.not_mem_nil, or_false] at known
    rcases known with rfl | rfl | rfl | rfl | rfl | rfl <;> rfl
  rw [definition?, found, Option.map_some, ← String.length_toList, List.drop_left, taken,
    String.ofList_toList]

/-- A line whose first letter begins no word for a definition defines nothing. -/
theorem definition?_eq_none {line : List Char}
    (margin : ∀ c ∈ line.head?, c ∉ ['U', '\x7d', 'v', '#', 'c', 'S']) :
    definition? line = none := by
  rw [definition?, Option.map_eq_none_iff, List.find?_eq_none]
  cases line with
  | nil => decide
  | cons c rest =>
    have other := margin c rfl
    simp only [List.mem_cons, List.not_mem_nil, or_false, not_or] at other
    simp [introductions, Ne.symm, other]

/-- The line is one that defines nothing. -/
def Silent (line : String) : Prop := OneLine line ∧ definition? line.toList = none

instance (line : String) : Decidable (Silent line) := inferInstanceAs (Decidable (_ ∧ _))

/-- The definitions of a text, of which the first line is known. -/
theorem definitions_line {line : String} (whole : OneLine line) (rest : String) :
    definitions (line ++ "\n" ++ rest) = (definition? line.toList).toList ++ definitions rest := by
  have letters : (line ++ "\n" ++ rest).toList = line.toList ++ '\n' :: rest.toList := by
    simp
  have others : ∀ c ∈ line.toList, (c == '\n') = false := by
    rintro c member
    exact beq_eq_false_iff_ne.mpr fun same => whole (same ▸ member)
  rw [definitions, letters, List.splitOn,
    List.splitOnP_append_cons_of_forall_mem others _ (beq_self_eq_true _)]
  cases named : definition? line.toList with
  | none => rw [List.filterMap_cons_none named]; rfl
  | some name => rw [List.filterMap_cons_some named]; rfl

/-- The lines define these names, in this order. -/
structure Defines (lines names : List String) : Prop where
  whole : ∀ line ∈ lines, OneLine line
  named : lines.filterMap (fun line => definition? line.toList) = names

namespace Defines

variable {lines others names more : List String} {line name : String}

theorem append (first : Defines lines names) (second : Defines others more) :
    Defines (lines ++ others) (names ++ more) where
  whole := List.forall_mem_append.mpr ⟨first.whole, second.whole⟩
  named := by rw [List.filterMap_append, first.named, second.named]

theorem cons (whole : OneLine line) (named : definition? line.toList = some name)
    (rest : Defines lines names) : Defines (line :: lines) (name :: names) where
  whole := List.forall_mem_cons.mpr ⟨whole, rest.whole⟩
  named := by rw [← rest.named]; simp [named]

theorem skip (silent : Silent line) (rest : Defines lines names) : Defines (line :: lines) names where
  whole := List.forall_mem_cons.mpr ⟨silent.1, rest.whole⟩
  named := by rw [← rest.named]; simp [silent.2]

theorem silent (silent : ∀ line ∈ lines, Silent line) : Defines lines [] where
  whole line member := (silent line member).1
  named := List.filterMap_eq_nil_iff.mpr fun line member => (silent line member).2

theorem map {α : Type} {items : List α} {line name : α → String}
    (each : ∀ item ∈ items, OneLine (line item) ∧ definition? (line item).toList = some (name item)) :
    Defines (items.map line) (items.map name) := by
  induction items with
  | nil => exact .silent nofun
  | cons item items ih =>
    obtain ⟨first, others⟩ := List.forall_mem_cons.mp each
    exact .cons first.1 first.2 (ih others)

/-- What the lines of a text define when more text follows. -/
theorem definitions (defines : Defines lines names) (rest : String) :
    definitions (String.join (lines.map (· ++ "\n")) ++ rest) = names ++ Source.definitions rest := by
  obtain ⟨whole, rfl⟩ := defines
  induction lines with
  | nil => rfl
  | cons line lines ih =>
    obtain ⟨first, others⟩ := List.forall_mem_cons.mp whole
    rw [List.map_cons, String.join_cons, String.append_assoc, definitions_line first, ih others,
      List.filterMap_cons]
    cases definition? line.toList <;> rfl

end Defines

end NodeScript.Source
