import NodeScript.Proofs.Compile.Declarations
import NodeScript.Proofs.Source.Scopes

/-!
The vocabulary of a unit. What a unit says is said in fixed words, in numbers, in names that carry
an identifier, and in its variables. So a use of the state, or of a user function, is the text of a
variable; and the names of constants are fixed words.
-/
namespace NodeScript

open Source (IsName accesses namesWith symbols scan access? wording wordingLine Uses)

namespace Variable

theorem name_ne_empty (v : Variable) : v.name ≠ "" := by
  intro empty
  have whole := v.plain_name
  rw [empty] at whole
  cases whole

/-- A variable is used by its name: as a field of the state, or as it stands. -/
theorem symbols_text (v : Variable) :
    symbols v.text =
      if v.kind.isInstanceScoped then ["state", "-", ">", v.name] else [v.name] := by
  cases v with
  | counter node =>
    exact Source.symbols_access (counter node).isName_name (counter node).name_ne_empty
  | result node =>
    exact Source.symbols_access (result node).isName_name (result node).name_ne_empty
  | function hash =>
    exact Source.symbols_of_isName (function hash).isName_name (function hash).name_ne_empty

/-- The stem of a name tells what the variable is for. -/
theorem name_head (v : Variable) :
    v.name.toList.head? = some (match v with
      | counter _ => 'c'
      | result _ => 'r'
      | function _ => 'f') := by
  cases v <;> simp [name, Assembly.nodeVariable, String.toList_append]

theorem accesses_text (v : Variable) :
    accesses v.text = if v.kind.isInstanceScoped then [v.name] else [] := by
  rw [accesses, symbols_text]
  split <;> simp [scan, access?]

end Variable

/-- Words that are the same in all units. -/
def phrases : List String :=
  ["(", ")", "\x7b", "\x7d", ";", ":", ",", "?", "=", "==", "!=", "<", ">", "<=", ">=", "0",
    "const", "uint16_t", "uint32_t", "uint64_t", "int32_t", "int", "void", "UserFunc", "typedef",
    "get_function", "inst", "inst->state", "inst->object_id", "state", "Trigger", "trigger",
    "switch", "case", "default", "goto", "return", "if", "else", "sleep_ms", "object_remove",
    "send_event", "t_time", "t_objId", "t_eventType", "t_eventVal", "t_arg", "t_a", "t_b"]

/-- The words that a unit with these variables may have, where nothing but its state is declared. -/
inductive Voiced (vars : List Variable) : String → Prop
  | phrase {word : String} (known : word ∈ phrases) : Voiced vars word
  | numeral {word : String} (digits : ∀ c ∈ word.toList, c = '-' ∨ c.isDigit = true) :
      Voiced vars word
  /-- A name that is neither of the state nor of a user function nor of a constant. -/
  | name {word : String} (letters : IsName word)
      (first : ∃ c ∉ ['s', 'f', 't'], word.toList.head? = some c) : Voiced vars word
  | text {v : Variable} (member : v ∈ vars) : Voiced vars v.text
  | increment {v : Variable} (member : v ∈ vars) : Voiced vars ("++" ++ v.text)

namespace Voiced

variable {vars : List Variable} {word : String}

/-- Of a name that is voiced nothing is used but itself, and it begins like no constant. -/
theorem silent_name (letters : IsName word)
    (first : ∃ c ∉ ['s', 'f', 't'], word.toList.head? = some c) {stem : String}
    (start : stem.toList.head? ∈ ['s', 'f', 't'].map some) :
    accesses word = [] ∧ namesWith stem word = [] := by
  obtain ⟨c, other, head⟩ := first
  obtain ⟨d, known, begun⟩ := List.mem_map.mp start
  have nonempty : word ≠ "" := by
    rintro rfl
    cases head
  refine ⟨Source.accesses_eq_nil fun member => ?_, ?_⟩
  · have letter := List.all_eq_true.mp letters _ member
    revert letter
    decide
  · rw [namesWith, Source.symbols_of_isName letters nonempty]
    refine List.filter_eq_nil_iff.mpr fun name same begins => ?_
    rw [List.mem_singleton.mp same] at begins
    obtain ⟨rest, split⟩ := List.isPrefixOf_iff_prefix.mp begins
    rw [← split, List.head?_append, ← begun] at head
    exact other (Option.some.inj head ▸ known)

theorem silent_numeral (digits : ∀ c ∈ word.toList, c = '-' ∨ c.isDigit = true) {c : Char}
    (other : c ≠ '-' ∧ c.isDigit = false) : c ∉ word.toList := by
  intro member
  rcases digits c member with same | digit
  · exact other.1 same
  · rw [other.2] at digit
    cases digit

/-- A field of the state that is used is that of a variable. -/
theorem accesses (voiced : Voiced vars word) {field : String}
    (used : field ∈ Source.accesses word) :
    ∃ v ∈ vars, v.kind.isInstanceScoped = true ∧ field = v.name := by
  cases voiced with
  | phrase known =>
    have none : ∀ word ∈ phrases, Source.accesses word = [] := by decide +kernel
    rw [none word known] at used
    cases used
  | numeral digits =>
    rw [Source.accesses_eq_nil (silent_numeral digits (by decide))] at used
    cases used
  | name letters first =>
    have start : "fn_".toList.head? ∈ ['s', 'f', 't'].map some := by decide
    rw [(silent_name letters first start).1] at used
    cases used
  | @text v member =>
    rw [v.accesses_text] at used
    split at used
    next own => exact ⟨v, member, own, List.mem_singleton.mp used⟩
    · cases used
  | @increment v member =>
    have same : Source.accesses ("++" ++ v.text) = Source.accesses v.text := by
      rw [Source.accesses, Source.symbols_increment, Source.accesses, v.symbols_text]
      split <;> simp [scan, access?]
    rw [same, v.accesses_text] at used
    split at used
    next own => exact ⟨v, member, own, List.mem_singleton.mp used⟩
    · cases used

/-- A name of a user function or of a constant is that of a variable, if it is not in a phrase. -/
theorem namesWith_cases (voiced : Voiced vars word) {stem name : String}
    (known : stem ∈ ["fn_", "t_"]) (used : name ∈ namesWith stem word) :
    word ∈ phrases ∨ ∃ v ∈ vars, name = v.name := by
  have start : ∀ stem ∈ ["fn_", "t_"],
      stem.toList.head? ∈ ['s', 'f', 't'].map some ∧ '_' ∈ stem.toList ∧
        ∀ mark ∈ ["state", "-", ">", "+"], stem.toList.isPrefixOf mark.toList = false := by decide
  obtain ⟨begun, inside, marks⟩ := start stem known
  have text (v : Variable) (used : name ∈ namesWith stem v.text) : name = v.name := by
    obtain ⟨member, begins⟩ := List.mem_filter.mp used
    have unmarked : name ∉ ["state", "-", ">", "+"] := fun mark => by
      rw [marks name mark] at begins
      cases begins
    rw [v.symbols_text] at member
    split at member <;> simp_all
  cases voiced with
  | phrase known => exact .inl known
  | numeral digits =>
    rw [Source.namesWith_eq_nil inside (silent_numeral digits (by decide))] at used
    cases used
  | name letters first =>
    rw [(silent_name letters first begun).2] at used
    cases used
  | @text v member => exact .inr ⟨v, member, text v used⟩
  | @increment v member =>
    refine .inr ⟨v, member, text v ?_⟩
    obtain ⟨symbol, begins⟩ := List.mem_filter.mp used
    refine List.mem_filter.mpr ⟨?_, begins⟩
    have other : name ≠ "+" := by
      rintro rfl
      rw [marks "+" (by decide)] at begins
      cases begins
    simpa [Source.symbols_increment, other] using symbol

/-- A user function that is used is one of the variables. -/
theorem functions (voiced : Voiced vars word) {name : String} (used : name ∈ namesWith "fn_" word) :
    ∃ hash, .function hash ∈ vars ∧ name = (Variable.function hash).name := by
  rcases voiced.namesWith_cases (by decide) used with known | ⟨v, member, rfl⟩
  · have none : ∀ word ∈ phrases, namesWith "fn_" word = [] := by decide +kernel
    rw [none word known] at used
    cases used
  · obtain ⟨rest, split⟩ := List.isPrefixOf_iff_prefix.mp (List.mem_filter.mp used).2
    have head := v.name_head
    rw [← split] at head
    cases v with
    | counter | result => simp at head
    | function hash => exact ⟨hash, member, rfl⟩

/-- No word but their names uses constants. -/
theorem unused (voiced : Voiced vars word) (other : word ∉ Node.constantNames) :
    namesWith "t_" word = [] := by
  refine List.eq_nil_iff_forall_not_mem.mpr fun name used => ?_
  rcases voiced.namesWith_cases (by decide) used with known | ⟨v, -, rfl⟩
  · have none : ∀ word ∈ phrases, word ∉ Node.constantNames → namesWith "t_" word = [] := by
      decide +kernel
    rw [none word known other] at used
    cases used
  · obtain ⟨rest, split⟩ := List.isPrefixOf_iff_prefix.mp (List.mem_filter.mp used).2
    have head := v.name_head
    rw [← split] at head
    cases v <;> simp at head

/-- Structures and pointers are declared with other words. -/
theorem plain (voiced : Voiced vars word) : word ≠ "struct" ∧ '*' ∉ word.toList := by
  have starless {name : String} (letters : IsName name) : '*' ∉ name.toList := by
    intro member
    have letter := List.all_eq_true.mp letters _ member
    revert letter
    decide
  have other {word : String} {c : Char} (inside : c ∈ word.toList) (missing : c ∉ "struct".toList) :
      word ≠ "struct" := by
    rintro rfl
    exact missing inside
  have text (v : Variable) : '_' ∈ v.text.toList ∧ '*' ∉ v.text.toList := by
    have underscore : '_' ∈ v.name.toList := by
      cases v <;> simp [Variable.name, Assembly.nodeVariable]
    rcases v.text_cases with same | ⟨-, -, same⟩
    · simp [same, underscore, starless v.isName_name]
    · exact same ▸ ⟨underscore, starless v.isName_name⟩
  cases voiced with
  | phrase known =>
    have fixed : ∀ word ∈ phrases, word ≠ "struct" ∧ '*' ∉ word.toList := by decide +kernel
    exact fixed word known
  | numeral digits =>
    refine ⟨?_, silent_numeral digits (by decide)⟩
    rintro rfl
    exact absurd (digits 's' (by decide)) (by decide)
  | name letters first =>
    refine ⟨?_, starless letters⟩
    rintro rfl
    obtain ⟨c, unlike, head⟩ := first
    exact unlike (Option.some.inj head ▸ by decide)
  | @text v member => exact ⟨other (text v).1 (by decide), (text v).2⟩
  | @increment v member =>
    refine ⟨@other _ '+' (by simp) (by decide), ?_⟩
    simp [(text v).2]

end Voiced

/-- The line is put together from words that are voiced. -/
def Line.Sourced (vars : List Variable) : Line → Prop
  | .label name => Voiced vars name
  | .statement _ (.comment _) => True
  | .statement _ (.increment counter) => ∃ v ∈ vars, counter = v.text
  | .statement _ content => ∀ text ∈ content.texts, Voiced vars text

/-- A legible line is worded in phrases, numbers and what it is put together from. -/
theorem Line.Sourced.voiced {vars : List Variable} {line : Line} (sourced : line.Sourced vars)
    (readable : Source.legibleLine line) : ∀ word ∈ wordingLine line, Voiced vars word := by
  have numeral (value : Int) : Voiced vars (toString value) :=
    .numeral fun _ => Source.sign_or_digit_of_mem_toString
  have unsigned (n : Nat) : Voiced vars (toString n) := numeral n
  have symbol (op : CompareOp) : Voiced vars op.symbol := by
    cases op <;> exact .phrase (by decide)
  have phrase : ∀ word ∈ phrases, Voiced vars word := fun word => .phrase
  cases line with
  | label name =>
    exact List.forall_mem_cons.mpr ⟨sourced, List.forall_mem_singleton.mpr (phrase _ (by decide))⟩
  | statement indent content =>
    cases content with
    | text content => cases readable
    | comment title => exact List.forall_mem_nil _
    | openBlock | closeBlock | orElse | leave =>
      simp (disch := decide) only [wordingLine, wording, List.forall_mem_cons, List.not_mem_nil,
        false_imp_iff, implies_true, phrase, and_self]
    | increment counter =>
      obtain ⟨v, member, rfl⟩ := sourced
      exact List.forall_mem_cons.mpr ⟨.increment member, List.forall_mem_singleton.mpr
        (phrase _ (by decide))⟩
    | _ =>
      simp only [Sourced, Statement.texts, List.forall_mem_cons, List.not_mem_nil, false_imp_iff,
        implies_true, and_true] at sourced
      simp (disch := decide) only [wordingLine, wording, List.forall_mem_cons, List.not_mem_nil,
        false_imp_iff, implies_true, sourced, numeral, unsigned, symbol, phrase, and_self]

namespace Node

variable (g : Graph) (node : Node) {vars : List Variable}

theorem voiced_labelName (uuid : Uuid) : Voiced vars (Assembly.labelName uuid) :=
  .name ((Source.isName_append _ _).mpr ⟨by decide, Source.isName_hex64 uuid⟩)
    ⟨'n', by decide, by simp [Assembly.labelName]⟩

theorem sourced_constants : ∀ constant ∈ node.constants g, ∀ indent,
    (Line.statement indent (.constant constant.type constant.name constant.value)).Sourced
      vars := by
  have known : constantWords ⊆ phrases := by decide
  intro constant member indent
  obtain ⟨type, name⟩ := node.constants_words g constant member
  exact List.forall_mem_cons.mpr ⟨.phrase (known type),
    List.forall_mem_singleton.mpr (.phrase (known name))⟩

theorem sourced_statements (asked : node.demands g ⊆ vars) (indent : Nat) :
    ∀ line ∈ node.statements g Variable.text indent, line.Sourced vars := by
  have phrase : ∀ word ∈ phrases, Voiced vars word := fun word => .phrase
  have input : ∀ (input : Input) (name : String), name ∈ phrases → input.demands ⊆ vars →
      Voiced vars (input.text Variable.text name) := by
    intro input name known asked
    cases input with
    | constant value => exact .phrase known
    | result node => exact .text (asked (List.mem_singleton_self _))
  unfold statements
  unfold demands at asked
  cases kind : node.kind with
  | start | value => exact List.forall_mem_nil _
  | wait | deleteObject | sendEvent =>
    simp (disch := decide) only [List.forall_mem_cons, List.not_mem_nil, false_imp_iff,
      implies_true, Line.Sourced, Statement.texts, phrase, and_self]
  | function name argument =>
    simp only [kind, List.cons_subset] at asked
    obtain ⟨function, result, -⟩ := asked
    simp (disch := decide) only [List.forall_mem_cons, List.not_mem_nil, false_imp_iff,
      implies_true, Line.Sourced, Statement.texts, phrase, Voiced.text function,
      Voiced.text result, and_self]
  | compare op =>
    simp only [kind, List.append_subset] at asked
    simp only [List.forall_mem_cons, List.not_mem_nil, false_imp_iff, implies_true, Line.Sourced,
      Statement.texts, input _ "t_a" (by decide) asked.1, input _ "t_b" (by decide) asked.2,
      and_self]
  | loop count =>
    simp only [kind, List.cons_subset] at asked
    simp only [List.forall_mem_cons, List.not_mem_nil, false_imp_iff, implies_true, Line.Sourced,
      Statement.texts, Voiced.text asked.1, and_true, true_and]
    exact ⟨_, asked.1, rfl⟩

theorem sourced_prelude (asked : node.demands g ⊆ vars) (indent : Nat) :
    ∀ content ∈ node.prelude Variable.text, (Line.statement indent content).Sourced vars := by
  unfold prelude
  unfold demands at asked
  cases kind : node.kind with
  | loop count =>
    simp only [kind, List.cons_subset] at asked
    intro content same
    obtain rfl := Option.some.inj same
    exact List.forall_mem_singleton.mpr (.text asked.1)
  | _ => nofun

theorem sourced_lines (asked : node.demands g ⊆ vars) (indent : Nat) :
    ∀ line ∈ node.lines g Variable.text indent, line.Sourced vars := by
  refine List.forall_mem_append.mpr ⟨List.forall_mem_append.mpr ⟨?_, ?_⟩,
    node.sourced_statements g asked _⟩
  · refine List.forall_mem_append.mpr ⟨?_, ?_⟩
    · split
      · exact List.forall_mem_singleton.mpr (voiced_labelName _)
      · exact List.forall_mem_nil _
    · exact List.forall_mem_cons.mpr ⟨List.forall_mem_nil _, List.forall_mem_singleton.mpr trivial⟩
  · intro line member
    obtain ⟨constant, inside, rfl⟩ := List.mem_map.mp member
    exact node.sourced_constants g constant inside _

end Node

theorem Chain.sourced_lines (g : Graph) {vars : List Variable} (chain : Chain)
    (asked : ∀ node ∈ chain.nodes, node.demands g ⊆ vars) {indent : Nat} (inside : 0 < indent) :
    ∀ line ∈ chain.lines g indent, line.Sourced vars :=
  chain.forall_lines g
    (fun _ _ => by simp [Line.Sourced, Statement.texts])
    (fun _ _ uuid => List.forall_mem_singleton.mpr (Node.voiced_labelName uuid))
    (fun node member indent _ => ⟨node.sourced_lines g (asked node member) indent,
      node.sourced_prelude g (asked node member) indent⟩) inside

/-- The words of a unit's body. -/
theorem Layout.voiced_lines (g : Graph) (layout : Layout) :
    ∀ word ∈ (layout.lines g).flatMap wordingLine, Voiced (layout.vars g) word := by
  intro word member
  obtain ⟨line, written, said⟩ := List.mem_flatMap.mp member
  refine Line.Sourced.voiced ?_ (lines_legible g layout line written) word said
  obtain ⟨⟨trigger, chain⟩, entry, inside⟩ := List.mem_flatMap.mp written
  rcases List.mem_cons.mp inside with rfl | inside
  · refine .name ?_ ⟨'e', by decide, ?_⟩ <;> cases trigger <;> decide
  · refine chain.sourced_lines g (fun node placed => ?_) Nat.one_pos line inside
    exact demands_subset (List.mem_flatMap.mpr ⟨_, entry, placed⟩)

end NodeScript
