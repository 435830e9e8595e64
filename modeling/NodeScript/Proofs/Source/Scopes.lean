import NodeScript.Proofs.Source.Lines
import NodeScript.Proofs.Source.Reader

/-!
The names of a text and their scopes. Words are split once more, into names and symbols; state
structures, pointers and constants are found by the words they are declared with. A scope is what
stands directly within a pair of brackets. `Nests` tells what a piece of text adds to the scope
around it and which scopes it opens and closes, so pieces that nest can be put together.
-/
namespace NodeScript.Source

/-- The words of a text, comments apart. -/
def speech (text : String) : List String := (spoken (lines text)).flatten

/-- The names and symbols of a word that goes on behind the letters of a name. -/
def symbolsFrom (name : List Char) : List Char → List String
  | [] => flush name
  | c :: rest =>
    if isNameLetter c then symbolsFrom (name ++ [c]) rest
    else flush name ++ String.singleton c :: symbolsFrom [] rest

/-- The names of a word, and the letters that are in none. -/
def symbols (word : String) : List String := symbolsFrom [] word.toList

/-- The names in a word that begin alike. -/
def namesWith (stem word : String) : List String :=
  (symbols word).filter fun name => stem.toList.isPrefixOf name.toList

/-- What is found in a text, given what a word begins with the words behind it. -/
def scan {α : Type} (found? : String → List String → Option α) : List String → List α
  | [] => []
  | word :: rest => (found? word rest).toList ++ scan found? rest

/-- The field of the state that is read or written. -/
def access? : String → List String → Option String
  | word, "-" :: ">" :: field :: _ => if word = "state" then some field else none
  | _, _ => none

/-- The fields of the state that are used in a word. -/
def accesses (word : String) : List String := scan access? (symbols word)

example : accesses "++state->cnt_0A" = ["cnt_0A"] ∧ namesWith "t_" "-t_a" = ["t_a"] := by
  decide +kernel

/-- The names that are declared up to the end of a structure, and what follows. -/
def fields? : List String → Option (List String × List String)
  | "\x7d" :: rest => some ([], rest)
  | _ :: name :: ";" :: rest => (fields? rest).map fun (names, behind) => (name :: names, behind)
  | _ => none

/-- A structure with the names of its fields. Its own name follows them. -/
def structure? : String → List String → Option (String × List String)
  | word, "\x7b" :: inside =>
    if word = "struct" then
      match fields? inside with
      | some (names, name :: ";" :: _) => some (name, names)
      | _ => none
    else none
  | _, _ => none

def structures : List String → List (String × List String) := scan structure?

/-- A pointer that is declared with a value, under the type that it points to. -/
def pointer? (word : String) : List String → Option (String × String)
  | name :: "=" :: _ =>
    match symbols word with
    | [type, "*"] => some (type, name)
    | _ => none
  | _ => none

def pointers : List String → List (String × String) := scan pointer?

example :
    let text := "typedef struct \x7b\n  int a;\n\x7d s;\n\nvoid f(T* t) \x7b\n  " ++
      "s* state = (s*)t->state;\n\x7d\n"
    structures (speech text) = [("s", ["a"])] ∧ pointers (speech text) = [("s", "state")] := by
  decide +kernel

/-- A constant that is declared. -/
def constant? : String → List String → Option String
  | word, _ :: name :: _ => if word = "const" then some name else none
  | _, _ => none

def constants : List String → List String := scan constant?

/-- What stands directly within each pair of brackets, given what has been read of the scopes that
are open, the innermost apart from those around it. -/
def scopes (own : List String) (around : List (List String)) : List String → List (List String)
  | [] => own :: around
  | word :: rest =>
    if word = "\x7b" then scopes [] (own :: around) rest
    else if word = "\x7d" then own :: scopes (around.headD []) around.tail rest
    else scopes (own ++ [word]) around rest

example :
    let text := "void f() \x7b\n  // \x7b\n" ++
      "  \x7b const int t_a = 5; if (t_a < 1) \x7b return; \x7d \x7d\n\x7d\n"
    scopes [] [] (speech text) =
      [["return", ";"], ["const", "int", "t_a", "=", "5", ";", "if", "(", "t_a", "<", "1", ")"], [],
        ["void", "f", "(", ")"]] := by
  decide +kernel

/-- Names of constants begin alike, and each that is used is declared once in the same scope. -/
def Scoped (scope : List String) : Prop :=
  (∀ name ∈ constants scope, namesWith "t_" name = [name]) ∧
    ∀ word ∈ scope, ∀ name ∈ namesWith "t_" word, (constants scope).count name = 1

instance (scope : List String) : Decidable (Scoped scope) := inferInstanceAs (Decidable (_ ∧ _))

section Scan

variable {α : Type} {found? : String → List String → Option α}

theorem scan_append_of_none {first : List String}
    (none : ∀ word ∈ first, ∀ rest, found? word rest = none) (rest : List String) :
    scan found? (first ++ rest) = scan found? rest := by
  induction first with
  | nil => rfl
  | cons word first ih =>
    obtain ⟨head, others⟩ := List.forall_mem_cons.mp none
    rw [List.cons_append, scan, head, ih others]
    rfl

theorem scan_eq_nil {words : List String}
    (none : ∀ word ∈ words, ∀ rest, found? word rest = none) : scan found? words = [] := by
  have all := scan_append_of_none none []
  rwa [List.append_nil] at all

end Scan

/-- Names and symbols are made of the letters of the word. -/
theorem letters_of_mem_symbols {word name : String} (member : name ∈ symbols word) :
    name.toList ⊆ word.toList := by
  have letters (own rest : List Char) :
      ∀ name ∈ symbolsFrom own rest, name.toList ⊆ own ++ rest := by
    induction rest generalizing own with
    | nil =>
      intro name member
      rw [symbolsFrom, flush] at member
      split at member
      · cases member
      · rw [List.mem_singleton.mp member, String.toList_ofList]
        exact List.subset_append_left _ _
    | cons c rest ih =>
      intro name member
      rw [symbolsFrom] at member
      split at member
      · have inside := ih _ name member
        rwa [List.append_assoc] at inside
      · rcases List.mem_append.mp member with member | member
        · rw [flush] at member
          split at member
          · cases member
          · rw [List.mem_singleton.mp member, String.toList_ofList]
            exact List.subset_append_left _ _
        · rcases List.mem_cons.mp member with rfl | member
          · simp
          · exact List.Subset.trans (ih [] name member) fun d inside => by simp_all
  exact letters [] _ name member

theorem symbols_of_isName {word : String} (letters : IsName word) (nonempty : word ≠ "") :
    symbols word = [word] := by
  have whole (own rest : List Char) (letters : rest.all isNameLetter = true) :
      symbolsFrom own rest = flush (own ++ rest) := by
    induction rest generalizing own with
    | nil => rw [symbolsFrom, List.append_nil]
    | cons c rest ih =>
      rw [List.all_cons, Bool.and_eq_true] at letters
      rw [symbolsFrom, if_pos letters.1, ih _ letters.2, List.append_assoc]
      rfl
  rw [symbols, whole _ _ letters]
  simp [flush, nonempty]

/-- A use of the state. -/
theorem symbols_access {field : String} (letters : IsName field) (nonempty : field ≠ "") :
    symbols ("state->" ++ field) = ["state", "-", ">", field] := by
  have name := symbols_of_isName letters nonempty
  rw [symbols] at name ⊢
  rw [String.toList_append, ← name]
  rfl

theorem symbols_increment (word : String) :
    symbols ("++" ++ word) = "+" :: "+" :: symbols word := by
  rw [symbols, String.toList_append]
  rfl

/-- A name ends at the first letter that is in none. -/
theorem symbols_append {name : String} (letters : IsName name) (nonempty : name ≠ "") {c : Char}
    (mark : isNameLetter c = false) (rest : String) :
    symbols (name ++ String.singleton c ++ rest) = name :: String.singleton c :: symbols rest := by
  have ended (own first : List Char) (letters : first.all isNameLetter = true) :
      symbolsFrom own (first ++ c :: rest.toList) =
        flush (own ++ first) ++ String.singleton c :: symbolsFrom [] rest.toList := by
    induction first generalizing own with
    | nil =>
      rw [List.append_nil, List.nil_append, symbolsFrom, mark]
      rfl
    | cons d first ih =>
      rw [List.all_cons, Bool.and_eq_true] at letters
      rw [List.cons_append, symbolsFrom, if_pos letters.1, ih _ letters.2, List.append_assoc]
      rfl
  rw [symbols, String.toList_append, String.toList_append, String.toList_singleton,
    List.append_assoc, List.singleton_append, ended [] _ letters]
  simp [flush, nonempty, symbols]

/-- The type of a pointer. -/
theorem symbols_pointer {type : String} (letters : IsName type) (nonempty : type ≠ "") :
    symbols (type ++ "*") = [type, "*"] := by
  have split := symbols_append letters nonempty (by decide : isNameLetter '*' = false) ""
  rwa [String.append_empty] at split

theorem namesWith_eq_nil {stem word : String} {c : Char} (inside : c ∈ stem.toList)
    (missing : c ∉ word.toList) : namesWith stem word = [] := by
  refine List.filter_eq_nil_iff.mpr fun name member start => ?_
  have start := List.isPrefixOf_iff_prefix.mp start
  exact missing (letters_of_mem_symbols member (start.subset inside))

theorem accesses_eq_nil {word : String} (missing : '>' ∉ word.toList) : accesses word = [] := by
  have symbol : ">" ∉ symbols word := fun member =>
    missing (letters_of_mem_symbols member (by decide))
  have none (words : List String) (missing : ">" ∉ words) : scan access? words = [] := by
    induction words with
    | nil => rfl
    | cons word rest ih =>
      have others : ">" ∉ rest := fun member => missing (List.mem_cons_of_mem _ member)
      rw [scan, ih others, List.append_nil, Option.toList_eq_nil_iff, access?.eq_def]
      split
      · simp at others
      · rfl
  exact none _ symbol

theorem pointer?_eq_none {word : String} (missing : '*' ∉ word.toList) (rest : List String) :
    pointer? word rest = none := by
  have symbol : "*" ∉ symbols word := fun member =>
    missing (letters_of_mem_symbols member (by decide))
  unfold pointer?
  split
  · split
    next type split => simp [split] at symbol
    · rfl
  · rfl

theorem structure?_eq_none {word : String} (other : word ≠ "struct") (rest : List String) :
    structure? word rest = none := by
  unfold structure?
  split
  · exact if_neg other
  · rfl

theorem constant?_eq_none {word : String} (other : word ≠ "const") (rest : List String) :
    constant? word rest = none := by
  unfold constant?
  split
  · exact if_neg other
  · rfl

/-- The words stand in the scope around them but for the scopes that they open and close. -/
def Nests (words direct : List String) (inner : List (List String)) : Prop :=
  ∀ own around rest,
    scopes own around (words ++ rest) = inner ++ scopes (own ++ direct) around rest

namespace Nests

variable {words others direct more : List String} {inner outer : List (List String)}

theorem flat (plain : ∀ word ∈ words, word ≠ "\x7b" ∧ word ≠ "\x7d") : Nests words words [] := by
  intro own around rest
  induction words generalizing own with
  | nil => simp
  | cons word words ih =>
    obtain ⟨⟨opens, closes⟩, others⟩ := List.forall_mem_cons.mp plain
    rw [List.cons_append, scopes, if_neg opens, if_neg closes, ih others]
    simp

theorem append (first : Nests words direct inner) (second : Nests others more outer) :
    Nests (words ++ others) (direct ++ more) (inner ++ outer) := by
  intro own around rest
  rw [List.append_assoc, first, second, List.append_assoc, List.append_assoc]

/-- Brackets make a scope of what is between them. -/
theorem block (within : Nests words direct inner) :
    Nests ("\x7b" :: (words ++ ["\x7d"])) [] (inner ++ [direct]) := by
  intro own around rest
  rw [List.cons_append, scopes, if_pos rfl, List.append_assoc, within, List.singleton_append]
  rw [scopes, if_neg (by decide), if_pos rfl]
  simp

/-- The scopes of a text whose brackets are matched. -/
theorem scopes_eq (whole : Nests words direct inner) : scopes [] [] words = inner ++ [direct] := by
  have all := whole [] [] []
  rwa [List.append_nil] at all

end Nests

/-- A word that neither opens, closes nor declares anything and uses these constants at most. -/
structure Uses (names : List String) (word : String) : Prop where
  opens : word ≠ "\x7b"
  closes : word ≠ "\x7d"
  declares : word ≠ "const"
  known : namesWith "t_" word ⊆ names

instance (names : List String) (word : String) : Decidable (Uses names word) :=
  decidable_of_iff
    (word ≠ "\x7b" ∧ word ≠ "\x7d" ∧ word ≠ "const" ∧ namesWith "t_" word ⊆ names)
    ⟨fun ⟨opens, closes, declares, known⟩ => ⟨opens, closes, declares, known⟩,
      fun uses => ⟨uses.opens, uses.closes, uses.declares, uses.known⟩⟩

theorem Uses.flat {words names : List String} (uses : ∀ word ∈ words, Uses names word) :
    Nests words words [] :=
  .flat fun word member => ⟨(uses word member).opens, (uses word member).closes⟩

/-- Where no constant is used none has to be declared. -/
theorem scoped_of_unused {scope : List String} (unused : ∀ word ∈ scope, Uses [] word) :
    Scoped scope := by
  have none : constants scope = [] :=
    scan_eq_nil fun word member => constant?_eq_none (unused word member).declares
  refine ⟨by simp [none], fun word member name used => ?_⟩
  cases (unused word member).known used

theorem Uses.mono {names more : List String} {word : String} (uses : Uses names word)
    (longer : names ⊆ more) : Uses more word :=
  { uses with known := List.Subset.trans uses.known longer }

/-- In the scope around them the words use these constants at most, and in the scopes that they open
and close none that are not declared there. -/
def Enclosed (names words : List String) : Prop :=
  ∃ direct inner, Nests words direct inner ∧ (∀ word ∈ direct, Uses names word) ∧
    ∀ scope ∈ inner, Scoped scope

namespace Enclosed

variable {names words others : List String}

theorem flat (uses : ∀ word ∈ words, Uses names word) : Enclosed names words :=
  ⟨words, [], Uses.flat uses, uses, List.forall_mem_nil _⟩

theorem append (first : Enclosed names words) (second : Enclosed names others) :
    Enclosed names (words ++ others) := by
  obtain ⟨direct, inner, nests, uses, bound⟩ := first
  obtain ⟨direct', inner', nests', uses', bound'⟩ := second
  exact ⟨_, _, nests.append nests', List.forall_mem_append.mpr ⟨uses, uses'⟩,
    List.forall_mem_append.mpr ⟨bound, bound'⟩⟩

/-- Brackets around words that use no constants. -/
theorem block (within : Enclosed [] words) : Enclosed names ("\x7b" :: (words ++ ["\x7d"])) := by
  obtain ⟨direct, inner, nests, unused, bound⟩ := within
  refine ⟨[], _, nests.block, List.forall_mem_nil _, List.forall_mem_append.mpr ⟨bound, ?_⟩⟩
  exact List.forall_mem_singleton.mpr (scoped_of_unused unused)

theorem forall_scopes (whole : Enclosed [] words) : ∀ scope ∈ scopes [] [] words, Scoped scope := by
  obtain ⟨direct, inner, nests, unused, bound⟩ := whole
  rw [nests.scopes_eq]
  exact List.forall_mem_append.mpr
    ⟨bound, List.forall_mem_singleton.mpr (scoped_of_unused unused)⟩

end Enclosed

/-- The words that a line is written with. -/
def wordingLine : Line → List String
  | .label name => [name, ":"]
  | .statement _ content => wording content

theorem flatten_spoken_render {line : Line} (readable : legibleLine line) :
    (spoken line.render).flatten = wordingLine line := by
  cases line with
  | label name =>
    rw [spoken_label readable]
    rfl
  | statement indent content =>
    have read : legible content := readable
    cases content with
    | text content => cases read
    | comment title =>
      rw [spoken_comment]
      rfl
    | sendEvent object eventType value =>
      rw [spoken_sendEvent read]
      rfl
    | _ =>
      rw [spoken_single read rfl nofun]
      exact List.flatten_singleton

/-- What legible lines say. -/
theorem flatten_spoken {lines : List Line} (readable : ∀ line ∈ lines, legibleLine line) :
    (spoken (lines.flatMap Line.render)).flatten = lines.flatMap wordingLine := by
  induction lines with
  | nil => rfl
  | cons line rest ih =>
    obtain ⟨first, others⟩ := List.forall_mem_cons.mp readable
    rw [List.flatMap_cons, spoken_append, List.flatten_append, flatten_spoken_render first,
      ih others, List.flatMap_cons]

/-- The words of a line that is known not to be a comment. -/
theorem spoken_line {line : String} {split : List String} (said : words line = split)
    (voiced : isComment split = false) : (spoken [line]).flatten = split := by
  simp [spoken, said, voiced]

theorem flatten_spoken_append (lines others : List String) :
    (spoken (lines ++ others)).flatten = (spoken lines).flatten ++ (spoken others).flatten := by
  rw [spoken_append, List.flatten_append]

theorem flatten_spoken_map {α : Type} {items : List α} {line : α → String}
    {split : α → List String}
    (each : ∀ item ∈ items, words (line item) = split item ∧ isComment (split item) = false) :
    (spoken (items.map line)).flatten = items.flatMap split := by
  induction items with
  | nil => rfl
  | cons item items ih =>
    obtain ⟨⟨said, voiced⟩, others⟩ := List.forall_mem_cons.mp each
    rw [List.map_cons, ← List.singleton_append, flatten_spoken_append, spoken_line said voiced,
      ih others, List.flatMap_cons]

/-- What a text says that is put together from lines. -/
theorem spoken_join {lines : List String} (whole : ∀ line ∈ lines, OneLine line) :
    spoken (Source.lines (String.join (lines.map (· ++ "\n")))) = spoken lines ++ [[]] := by
  have split := lines_join lines ""
  rw [String.append_empty, flatMap_lines whole] at split
  rw [split, spoken_append]
  rfl

theorem speech_join {lines : List String} (whole : ∀ line ∈ lines, OneLine line) :
    speech (String.join (lines.map (· ++ "\n"))) = (spoken lines).flatten := by
  rw [speech, spoken_join whole, List.flatten_append]
  exact List.append_nil _

end NodeScript.Source
