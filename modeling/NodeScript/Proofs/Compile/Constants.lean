import NodeScript.Proofs.Compile.Vocabulary

/-!
The constants of a unit. The block of a node declares the constants that the node uses, each of them
once; the test of a branching node stands in that block, but its arms are scopes of their own and
use none of its constants, and neither does what stands between blocks.
-/
namespace NodeScript

open Source (namesWith scan constants wording wordingLine Uses Nests Scoped Enclosed)

/-- Words that open or close a scope or that have to do with constants. -/
def scopeWords : List String := ["\x7b", "\x7d", "const"] ++ Node.constantNames

namespace Voiced

variable {vars : List Variable} {names : List String} {word : String}

theorem uses (voiced : Voiced vars word) (other : word ∉ scopeWords) : Uses names word where
  opens := by
    rintro rfl
    exact other (by decide)
  closes := by
    rintro rfl
    exact other (by decide)
  declares := by
    rintro rfl
    exact other (by decide)
  known := by
    rw [voiced.unused fun known => other (List.mem_append_right _ known)]
    exact List.nil_subset names

/-- What begins otherwise is none of the words that have to do with scopes. -/
theorem uses_of_head (voiced : Voiced vars word) {c : Char} (head : word.toList.head? = some c)
    (other : c ∉ ['\x7b', '\x7d', 'c', 't']) : Uses names word := by
  have heads : ∀ word ∈ scopeWords,
      word.toList.head? ∈ ['\x7b', '\x7d', 'c', 't'].map some := by decide
  refine voiced.uses fun member => ?_
  obtain ⟨d, known, first⟩ := List.mem_map.mp (heads word member)
  exact other (Option.some.inj (first.trans head) ▸ known)

end Voiced

section Uses

variable {names : List String}

theorem uses_phrase {word : String} (known : word ∈ phrases) (other : word ∉ scopeWords) :
    Uses names word :=
  (Voiced.phrase known : Voiced [] word).uses other

theorem uses_numeral (value : Int) : Uses names (toString value) := by
  have letters : ∀ word ∈ scopeWords,
      word.toList.any (fun c => !(c == '-' || c.isDigit)) = true := by decide
  refine (Voiced.numeral fun c => Source.sign_or_digit_of_mem_toString : Voiced [] _).uses ?_
  intro member
  obtain ⟨c, inside, unlike⟩ := List.any_eq_true.mp (letters _ member)
  rcases Source.sign_or_digit_of_mem_toString inside with rfl | digit
  · cases unlike
  · simp [digit] at unlike

theorem uses_text (v : Variable) : Uses names v.text := by
  have voiced : Voiced [v] v.text := .text (List.mem_singleton_self v)
  rcases v.text_head with head | head <;> exact voiced.uses_of_head head (by decide)

theorem uses_increment (v : Variable) : Uses names ("++" ++ v.text) := by
  have voiced : Voiced [v] ("++" ++ v.text) := .increment (List.mem_singleton_self v)
  exact voiced.uses_of_head (c := '+') (by simp [String.toList_append]) (by decide)

theorem uses_labelName (uuid : Uuid) : Uses names (Assembly.labelName uuid) :=
  (Node.voiced_labelName uuid : Voiced [] _).uses_of_head (c := 'n')
    (by simp [Assembly.labelName]) (by decide)

theorem uses_constant {name : String} (declared : name ∈ names)
    (known : name ∈ Node.constantNames) : Uses names name := by
  have single : ∀ name ∈ Node.constantNames, namesWith "t_" name = [name] ∧ name ≠ "\x7b" ∧
      name ≠ "\x7d" ∧ name ≠ "const" := by decide +kernel
  obtain ⟨used, opens, closes, declares⟩ := single name known
  exact ⟨opens, closes, declares, by simpa [used] using declared⟩

end Uses

namespace Constant

variable {declared : List Constant}

/-- The words that a constant is declared with. -/
def words (c : Constant) : List String := wording (.constant c.type c.name c.value)

/-- The type and the name of the constant are known. -/
def Named (c : Constant) : Prop := c.type ∈ Node.constantTypes ∧ c.name ∈ Node.constantNames

/-- But for the first word, a declaration uses the constant that it declares. -/
theorem Named.uses {c : Constant} (named : c.Named) :
    ∀ word ∈ [c.type, c.name, "=", toString c.value.toInt, ";"], Uses [c.name] word := by
  have types : ∀ type ∈ Node.constantTypes, type ∈ phrases ∧ type ∉ scopeWords := by decide
  obtain ⟨known, other⟩ := types _ named.1
  simp (disch := decide) only [List.forall_mem_cons, List.not_mem_nil, false_imp_iff, implies_true,
    uses_phrase, uses_phrase known other, uses_constant (List.mem_singleton_self _) named.2,
    uses_numeral, and_self]

theorem words_cases (named : ∀ c ∈ declared, c.Named) :
    ∀ word ∈ declared.flatMap words, word = "const" ∨ Uses (declared.map (·.name)) word := by
  intro word member
  obtain ⟨c, inside, said⟩ := List.mem_flatMap.mp member
  rcases List.mem_cons.mp said with first | later
  · exact .inl first
  · refine .inr (((named c inside).uses word later).mono ?_)
    simpa using ⟨c, inside, rfl⟩

/-- The constants of a block whose other words declare none. -/
theorem constants_words (named : ∀ c ∈ declared, c.Named) {names own : List String}
    (uses : ∀ word ∈ own, Uses names word) :
    constants (declared.flatMap words ++ own) = declared.map (·.name) := by
  have silent {names words : List String} (uses : ∀ word ∈ words, Uses names word) :
      ∀ word ∈ words, ∀ rest, Source.constant? word rest = none :=
    fun word member => Source.constant?_eq_none (uses word member).declares
  induction declared with
  | nil => exact Source.scan_eq_nil (silent uses)
  | cons c declared ih =>
    obtain ⟨first, others⟩ := List.forall_mem_cons.mp named
    have rest := ih others
    rw [constants] at rest ⊢
    rw [List.flatMap_cons, List.append_assoc]
    change (Source.constant? "const" (c.type :: c.name :: _)).toList ++ scan Source.constant?
      ([c.type, c.name, "=", toString c.value.toInt, ";"] ++ _) = _
    rw [Source.scan_append_of_none (silent first.uses), rest]
    rfl

/-- The block of a node declares what it uses. -/
theorem scoped_block (named : ∀ c ∈ declared, c.Named) (distinct : (declared.map (·.name)).Nodup)
    {own : List String} (uses : ∀ word ∈ own, Uses (declared.map (·.name)) word) :
    Scoped (declared.flatMap words ++ own) := by
  have known : ∀ word ∈ declared.flatMap words ++ own,
      namesWith "t_" word ⊆ declared.map (·.name) := by
    refine List.forall_mem_append.mpr ⟨fun word member => ?_, fun word member =>
      (uses word member).known⟩
    rcases words_cases named word member with rfl | used
    · have none : namesWith "t_" "const" = [] := by decide +kernel
      exact none ▸ List.nil_subset _
    · exact used.known
  rw [Scoped, constants_words named uses]
  refine ⟨fun name member => ?_, fun word member name used => ?_⟩
  · have single : ∀ name ∈ Node.constantNames, namesWith "t_" name = [name] := by decide +kernel
    obtain ⟨c, inside, rfl⟩ := List.mem_map.mp member
    exact single _ (named c inside).2
  · exact List.count_eq_one_of_mem distinct (known word member used)

/-- Declarations open and close nothing. -/
theorem nests_words (named : ∀ c ∈ declared, c.Named) :
    Nests (declared.flatMap words) (declared.flatMap words) [] := by
  refine .flat fun word member => ?_
  rcases words_cases named word member with rfl | used
  · decide
  · exact ⟨used.opens, used.closes⟩

end Constant

namespace Node

variable (g : Graph) (node : Node) (indent : Nat)

theorem nodup_constants : ((node.constants g).map (·.name)).Nodup := by
  unfold constants
  cases node.kind with
  | compare op =>
    cases g.input node.uuid 1 <;> cases g.input node.uuid 2 <;> simp [Input.constants]
  | _ => simp

/-- The text of an input is among the constants, or that of a variable. -/
theorem uses_input (input : Input) (name : String) (known : name ∈ constantNames)
    {names : List String} (declared : (input.constants name).map (·.name) ⊆ names) :
    Uses names (input.text Variable.text name) := by
  cases input with
  | constant value => exact uses_constant (declared (List.mem_singleton_self name)) known
  | result node => exact uses_text _

/-- What a node with one way out does uses the constants of the node. -/
theorem uses_statements (single : node.type.branches = false) :
    ∀ word ∈ (node.statements g Variable.text indent).flatMap wordingLine,
      Uses ((node.constants g).map (·.name)) word := by
  unfold statements constants
  cases kind : node.kind with
  | compare | loop => simp [Node.type, kind, NodeKind.type, NodeType.branches] at single
  | start | value => exact List.forall_mem_nil _
  | wait | deleteObject | sendEvent | function =>
    simp (disch := decide) only [List.flatMap_cons, List.flatMap_nil, List.append_nil, wordingLine,
      wording, List.map_cons, List.map_nil, List.forall_mem_cons, List.not_mem_nil, false_imp_iff,
      implies_true, uses_phrase, uses_text, uses_constant, and_self]

/-- So does the test of a node with two ways out; how its arms begin uses none. -/
theorem uses_test (double : node.type.branches = true) :
    ∃ own first, (node.statements g Variable.text indent).flatMap wordingLine =
        own ++ "\x7b" :: first ∧
      (∀ word ∈ own, Uses ((node.constants g).map (·.name)) word) ∧
      ∀ word ∈ first, Uses [] word := by
  unfold statements constants
  cases kind : node.kind with
  | start | value | wait | deleteObject | sendEvent | function =>
    simp [Node.type, kind, NodeKind.type, NodeType.branches] at double
  | compare op =>
    have symbol : op.symbol ∈ phrases ∧ op.symbol ∉ scopeWords := by cases op <;> decide
    have lhs := uses_input (g.input node.uuid 1) "t_a" (by decide)
      (List.subset_append_left _ (((g.input node.uuid 2).constants "t_b").map (·.name)))
    have rhs := uses_input (g.input node.uuid 2) "t_b" (by decide)
      (List.subset_append_right (((g.input node.uuid 1).constants "t_a").map (·.name)) _)
    rw [← List.map_append] at lhs rhs
    refine ⟨["if", "(", _, op.symbol, _, ")"], [], rfl, ?_, List.forall_mem_nil _⟩
    simp (disch := decide) only [List.forall_mem_cons, List.not_mem_nil, false_imp_iff,
      implies_true, uses_phrase, uses_phrase symbol.1 symbol.2, lhs, rhs, and_self]
  | loop count =>
    have bound (names : List String) : Uses names (toString count.toNat) :=
      uses_numeral count.toNat
    refine ⟨["if", "(", _, "<", toString count.toNat, ")"], ["++" ++ _, ";"], rfl, ?_, ?_⟩ <;>
      simp (disch := decide) only [List.forall_mem_cons, List.not_mem_nil, false_imp_iff,
        implies_true, uses_phrase, uses_text, uses_increment, bound, and_self]

theorem uses_prelude :
    ∀ word ∈ ((node.prelude Variable.text).toList.map (Line.statement indent)).flatMap wordingLine,
      Uses [] word := by
  unfold prelude
  cases node.kind with
  | loop count =>
    change ∀ word ∈ [_, "=", "0", ";"], Uses [] word
    simp (disch := decide) only [List.forall_mem_cons, List.not_mem_nil, false_imp_iff,
      implies_true, uses_phrase, uses_text, and_self]
  | _ => exact List.forall_mem_nil _

/-- The words of a node up to its end or its first arm. -/
theorem words_lines : (node.lines g Variable.text indent).flatMap wordingLine =
    (if 1 < g.logicInDegree node.uuid then [Assembly.labelName node.uuid, ":"] else []) ++
      "\x7b" :: ((node.constants g).flatMap Constant.words ++
        (node.statements g Variable.text (indent + 1)).flatMap wordingLine) := by
  rw [lines, opening]
  split <;> simp [wordingLine, wording, List.flatMap_map] <;> rfl

/-- A block that uses the constants of the node uses none outside. -/
theorem enclosed_block {words : List String}
    (within : Enclosed ((node.constants g).map (·.name)) words) :
    Enclosed [] ((if 1 < g.logicInDegree node.uuid then [Assembly.labelName node.uuid, ":"] else [])
      ++ "\x7b" :: ((node.constants g).flatMap Constant.words ++ words ++ ["\x7d"])) := by
  have label : Enclosed []
      (if 1 < g.logicInDegree node.uuid then [Assembly.labelName node.uuid, ":"] else []) := by
    refine .flat ?_
    split
    · exact List.forall_mem_cons.mpr ⟨uses_labelName _, List.forall_mem_singleton.mpr (by decide)⟩
    · exact List.forall_mem_nil _
  have named : ∀ c ∈ node.constants g, c.Named := node.constants_named g
  obtain ⟨direct, inner, nests, uses, bound⟩ := within
  refine label.append ⟨[], _, ((Constant.nests_words named).append nests).block,
    List.forall_mem_nil _, ?_⟩
  refine List.forall_mem_append.mpr ⟨bound, List.forall_mem_singleton.mpr ?_⟩
  exact Constant.scoped_block named (node.nodup_constants g) uses

end Node

/-- The blocks of a chain are closed, and between them no constants are used. -/
theorem Chain.Lays.enclosed_lines {g : Graph} {placed after : List Uuid} {target : Option Uuid}
    {chain : Chain} (laid : Lays g placed target chain after) (indent : Nat) :
    Enclosed [] ((chain.lines g indent).flatMap wordingLine) := by
  induction laid generalizing indent with
  | stop => exact .flat (by decide : ∀ word ∈ ["return", ";"], Uses [] word)
  | @jump placed uuid seen =>
    have goto : ∀ word ∈ ["goto", Assembly.labelName uuid, ";"], Uses [] word := by
      simp (disch := decide) only [List.forall_mem_cons, List.not_mem_nil, false_imp_iff,
        implies_true, uses_phrase, uses_labelName, and_self]
    exact .flat goto
  | @step placed after uuid node rest fresh found entered single next ih =>
    have block := node.enclosed_block g (.flat (node.uses_statements g (indent + 1) single))
    have all := block.append (ih indent)
    rw [lines, List.flatMap_append, node.words_lines, List.flatMap_cons]
    simpa [wordingLine, wording] using all
  | @branch placed middle after uuid node first second fresh found entered double holds fails
      ihFirst ihSecond =>
    obtain ⟨own, ups, words, uses, unused⟩ := node.uses_test g (indent + 1) double
    have up : Enclosed [] ups := .flat unused
    have down : Enclosed [] _ := .flat (node.uses_prelude (indent + 2))
    have turn : Enclosed ((node.constants g).map (·.name)) ["else"] := .flat (by
      simp (disch := decide) only [List.forall_mem_cons, List.not_mem_nil, false_imp_iff,
        implies_true, uses_phrase, and_self])
    have arms := (((Enclosed.flat uses).append (up.append (ihFirst (indent + 2))).block).append
      turn).append (down.append (ihSecond (indent + 2))).block
    rw [lines, List.flatMap_append, List.flatMap_append, node.words_lines, words,
      List.flatMap_cons, List.flatMap_append, List.flatMap_append]
    simpa [wordingLine, wording] using node.enclosed_block g arms

theorem Chain.LaysAll.enclosed_lines {g : Graph} {triggers : List Trigger}
    {placed after : List Uuid} {layout : Layout} (laid : LaysAll g triggers placed layout after) :
    Enclosed [] ((layout.lines g).flatMap wordingLine) := by
  induction laid with
  | done => exact .flat (List.forall_mem_nil _)
  | skip unlinked others ih => exact ih
  | @lead placed middle after trigger rest target chain layout linked laid others ih =>
    have label : Enclosed [] [trigger.label, ":"] := .flat (by cases trigger <;> decide)
    have lines := (laid.enclosed_lines 1).append ih
    rw [← List.flatMap_append] at lines
    exact label.append lines

end NodeScript
