import NodeScript.Proofs.Compile.Constants

/-!
The words of a unit. The header declares the user functions at file scope and, where there are any,
the variables that every instance has of its own, as the fields of a state structure that the
function finds behind a pointer; then comes the choice of an entry, and the body.
-/
namespace NodeScript

open Source (OneLine IsName accesses namesWith symbols spoken speech words isComment plain
  wordingLine Uses words_append_of_opens words_append_of_closes words_of_plain)

namespace Variable

/-- The words of a declaration at file scope. -/
def fileWords (v : Variable) : List String :=
  [v.declaration.type, v.name, "="] ++ words v.declaration.initialText ++ [";"]

/-- The words of a field. -/
def fieldWords (v : Variable) : List String := [v.declaration.type, v.name, ";"]

theorem type_mem (v : Variable) : v.declaration.type ∈ ["uint32_t", "int", "UserFunc"] := by
  cases v <;> simp [declaration]

theorem words_fileLine (v : Variable) : words v.declaration.fileLine = v.fileWords := by
  have types : ∀ type ∈ ["uint32_t", "int", "UserFunc"], words type = [type] := by decide
  rw [Declaration.fileLine]
  simp (disch := simp +decide) only [words_append_of_opens, words_append_of_closes]
  change words v.declaration.type ++ words " " ++ words v.name ++ _ ++ _ ++ _ = _
  rw [types _ v.type_mem, words_of_plain v.plain_name]
  rfl

theorem words_fieldLine (v : Variable) : words v.declaration.fieldLine = v.fieldWords := by
  have types : ∀ type ∈ ["uint32_t", "int", "UserFunc"], words type = [type] := by decide
  rw [Declaration.fieldLine]
  simp (disch := simp +decide) only [words_append_of_opens, words_append_of_closes]
  change words v.declaration.type ++ words " " ++ words v.name ++ _ = _
  rw [types _ v.type_mem, words_of_plain v.plain_name]
  rfl

end Variable

/-- The words of the state structure, if there are fields. -/
def stateWords (function : String) (fields : List Variable) : List String :=
  if fields.isEmpty then []
  else ["typedef", "struct"] ++ "\x7b" :: (fields.flatMap Variable.fieldWords ++ ["\x7d"]) ++
    [function ++ "_state", ";"]

/-- The words of the pointer to it. -/
def pointerWords (function : String) (fields : List Variable) : List String :=
  if fields.isEmpty then []
  else [function ++ "_state*", "state", "=", "(", function ++ "_state*", ")", "inst->state", ";"]

/-- The words of the function up to its body. -/
def functionWords (function : String) : List String :=
  ["void", function, "(", "Instance*", "inst", ",", "Trigger", "trigger", ")"]

/-- The words of the choice of an entry. -/
def choiceWords (entries : Entries) : List String :=
  ["switch", "(", "trigger", ")"] ++ "\x7b" ::
    ((Trigger.all.filter fun trigger => (entries.get trigger).isSome).flatMap (fun trigger =>
      ["case", trigger.constant, ":", "goto", trigger.label, ";"]) ++
        ["default", ":", "return", ";"] ++ ["\x7d"])

/-- The words of a unit with this body. -/
def unitWords (uuid : Uuid) (vars : List Variable) (entries : Entries) (body : List String) :
    List String :=
  let fields := vars.filter fun v => v.kind.isInstanceScoped
  (vars.filter fun v => !v.kind.isInstanceScoped).flatMap Variable.fileWords ++
    (stateWords (functionName uuid) fields ++ (functionWords (functionName uuid) ++ "\x7b" ::
      (pointerWords (functionName uuid) fields ++ (choiceWords entries ++ body) ++ ["\x7d"])))

namespace Assembly

variable {a : Assembly} {vars : List Variable} {uuid : Uuid} {name : String} {entries : Entries}

theorem stateLines_eq (declared : a.globals = Variable.table vars) : a.stateLines =
    (vars.filter fun v => v.kind.isInstanceScoped).map fun v => v.declaration.fieldLine := by
  rw [stateLines, declared, Variable.table, List.toList_toArray, List.filter_map, List.map_map]
  rfl

theorem spoken_fileLines (declared : a.globals = Variable.table vars) :
    (spoken a.fileLines).flatten =
      (vars.filter fun v => !v.kind.isInstanceScoped).flatMap Variable.fileWords := by
  have lines : a.fileLines =
      (vars.filter fun v => !v.kind.isInstanceScoped).map fun v => v.declaration.fileLine := by
    rw [fileLines, declared, Variable.table, List.toList_toArray, List.filter_map, List.map_map]
    rfl
  rw [lines]
  refine Source.flatten_spoken_map fun v _ => ⟨v.words_fileLine, ?_⟩
  cases v <;> rfl

theorem spoken_stateType (declared : a.globals = Variable.table vars) :
    (spoken (if a.stateLines.isEmpty then [] else
      ["typedef struct \x7b"] ++ a.stateLines.map ("  " ++ ·) ++
        ["\x7d " ++ functionName uuid ++ "_state;", ""])).flatten =
      stateWords (functionName uuid) (vars.filter fun v => v.kind.isInstanceScoped) := by
  rw [stateLines_eq declared, stateWords, List.isEmpty_map]
  split
  · rfl
  have last : words ("\x7d " ++ functionName uuid ++ "_state;") =
      ["\x7d", functionName uuid ++ "_state", ";"] := by
    have split : "\x7d " ++ functionName uuid ++ "_state;" =
        "\x7d " ++ (functionName uuid ++ "_state") ++ ";" := String.toList_inj.mp (by simp)
    rw [split]
    simp (disch := simp +decide) only [words_append_of_opens, words_append_of_closes]
    rw [words_of_plain (Source.plain_append (plain_functionName uuid) (by decide))]
    rfl
  have fields := @Source.flatten_spoken_map _ (vars.filter fun v => v.kind.isInstanceScoped)
    (("  " ++ ·) ∘ fun v => v.declaration.fieldLine) Variable.fieldWords fun v _ =>
      ⟨(Source.words_indentation 1 _).trans v.words_fieldLine, by cases v <;> rfl⟩
  have head : (spoken ["typedef struct \x7b"]).flatten = ["typedef", "struct", "\x7b"] :=
    Source.spoken_line (by decide) (by decide)
  have ending : (spoken ["\x7d " ++ functionName uuid ++ "_state;", ""]).flatten =
      ["\x7d", functionName uuid ++ "_state", ";"] := by
    rw [← List.singleton_append, Source.flatten_spoken_append, Source.spoken_line last (by rfl)]
    rfl
  rw [Source.flatten_spoken_append, Source.flatten_spoken_append, head, List.map_map, fields,
    ending]
  simp

theorem spoken_statePointer (declared : a.globals = Variable.table vars) :
    (spoken (if a.stateLines.isEmpty then [] else
      ["  " ++ functionName uuid ++ "_state* state = (" ++ functionName uuid ++
        "_state*)inst->state;"])).flatten =
      pointerWords (functionName uuid) (vars.filter fun v => v.kind.isInstanceScoped) := by
  rw [stateLines_eq declared, pointerWords, List.isEmpty_map]
  split
  · rfl
  have split : "  " ++ functionName uuid ++ "_state* state = (" ++ functionName uuid ++
      "_state*)inst->state;" = "  " ++ (functionName uuid ++ "_state*") ++ " state = (" ++
        (functionName uuid ++ "_state*") ++ ")inst->state;" := String.toList_inj.mp (by simp)
  have whole : plain (functionName uuid ++ "_state*") = true :=
    Source.plain_append (plain_functionName uuid) (by decide)
  refine Source.spoken_line ?_ ?_
  · rw [split]
    simp (disch := simp +decide) only [words_append_of_opens, words_append_of_closes]
    rw [words_of_plain whole]
    rfl
  · simp [isComment]

theorem spoken_choice (entries : Entries) :
    (spoken (["  switch (trigger) \x7b"] ++
      (Trigger.all.filter fun trigger => (entries.get trigger).isSome).map (fun trigger =>
        "    case " ++ trigger.constant ++ ": goto " ++ trigger.label ++ ";") ++
      ["    default: return;", "  \x7d"])).flatten = choiceWords entries := by
  have cases := @Source.flatten_spoken_map _
    (Trigger.all.filter fun trigger => (entries.get trigger).isSome)
    (fun trigger => "    case " ++ trigger.constant ++ ": goto " ++ trigger.label ++ ";")
    (fun trigger => ["case", trigger.constant, ":", "goto", trigger.label, ";"])
    fun trigger _ => by cases trigger <;> decide
  have head : (spoken ["  switch (trigger) \x7b"]).flatten =
      ["switch", "(", "trigger", ")", "\x7b"] := Source.spoken_line (by decide) (by decide)
  have ending : (spoken ["    default: return;", "  \x7d"]).flatten =
      ["default", ":", "return", ";", "\x7d"] := by decide +kernel
  rw [Source.flatten_spoken_append, Source.flatten_spoken_append, head, cases, ending, choiceWords]
  simp

/-- The words of a unit. -/
theorem speech_source (declared : a.globals = Variable.table vars)
    (inner : ∀ line ∈ a.lines.toList, line.Inner)
    (legible : ∀ line ∈ a.lines.toList, Source.legibleLine line) (named : OneLine name) :
    speech (a.toScript uuid name entries).source =
      unitWords uuid vars entries (a.lines.toList.flatMap wordingLine) := by
  have whole := (@defines_sourceLines a vars uuid name entries declared inner named).whole
  have comment : spoken ["// '" ++ name ++ "' (" ++ hex64 uuid ++ ")"] = [] := by
    have split : "// '" ++ name ++ "' (" ++ hex64 uuid ++ ")" =
        "// " ++ ("'" ++ name ++ "' (" ++ hex64 uuid ++ ")") := String.toList_inj.mp (by simp)
    have slashes : words "// " = ["/", "/"] := by decide
    rw [split, spoken, List.map_singleton, words_append_of_closes _ (by decide), slashes]
    rfl
  have gap : (spoken (if a.fileLines.isEmpty then [] else [""])).flatten = [] := by
    split <;> rfl
  have head : (spoken ["void " ++ functionName uuid ++
      "(Instance* inst, Trigger trigger) \x7b"]).flatten =
      functionWords (functionName uuid) ++ ["\x7b"] := by
    refine Source.spoken_line ?_ (by rfl)
    simp (disch := simp +decide) only [words_append_of_opens, words_append_of_closes]
    rw [words_of_plain (plain_functionName uuid)]
    rfl
  have choice := spoken_choice entries
  have last : (spoken ["\x7d"]).flatten = ["\x7d"] := by rfl
  simp only [Source.flatten_spoken_append] at choice
  rw [source_toScript, Source.speech_join whole, sourceLines, unitWords]
  simp only [Source.flatten_spoken_append, comment, List.flatten_nil, List.nil_append,
    spoken_fileLines declared, gap, spoken_stateType declared, head, spoken_statePointer declared,
    last, bodyLines, Source.flatten_spoken legible, ← choice]
  simp only [List.append_assoc, List.cons_append, List.nil_append]

end Assembly

/-- Words with which structures and pointers are declared. -/
def stateMarks (uuid : Uuid) : List String :=
  ["struct", "Instance*", functionName uuid ++ "_state*"]

theorem head_functionName (uuid : Uuid) (rest : String) :
    (functionName uuid ++ rest).toList.head? = some 'g' := by
  simp [functionName]

theorem isName_stateType (uuid : Uuid) : IsName (functionName uuid ++ "_state") :=
  (Source.isName_append _ _).mpr ⟨Assembly.isName_functionName uuid, by decide⟩

theorem symbols_statePointer (uuid : Uuid) :
    symbols (functionName uuid ++ "_state*") = [functionName uuid ++ "_state", "*"] := by
  have split : functionName uuid ++ "_state*" = functionName uuid ++ "_state" ++ "*" :=
    String.toList_inj.mp (by simp)
  rw [split, Source.symbols_pointer (isName_stateType uuid) (by simp)]

/-- None of these words uses fields, user functions or constants. -/
theorem silent_stateMarks (uuid : Uuid) : ∀ word ∈ stateMarks uuid,
    accesses word = [] ∧ namesWith "fn_" word = [] ∧ Uses [] word := by
  have first : ∃ c ∉ ['s', 'f', 't'], (functionName uuid ++ "_state").toList.head? = some c :=
    ⟨'g', by decide, head_functionName uuid _⟩
  have letters := isName_stateType uuid
  have type (stem : String) (start : stem.toList.head? ∈ ['s', 'f', 't'].map some)
      (star : ["*"].filter (fun name => stem.toList.isPrefixOf name.toList) = []) :
      namesWith stem (functionName uuid ++ "_state*") = [] := by
    have none := (Voiced.silent_name letters first start).2
    rw [namesWith, Source.symbols_of_isName letters (by simp)] at none
    rw [namesWith, symbols_statePointer, ← List.singleton_append, List.filter_append, none, star,
      List.append_nil]
  have fixed : ∀ word ∈ ["struct", "Instance*"],
      accesses word = [] ∧ namesWith "fn_" word = [] ∧ Uses [] word := by decide +kernel
  have heads : ∀ word ∈ ["\x7b", "\x7d", "const"], word.toList.head? ≠ some 'g' := by decide
  have other : ∀ word ∈ ["\x7b", "\x7d", "const"], functionName uuid ++ "_state*" ≠ word :=
    fun word known same => heads word known (same ▸ head_functionName uuid _)
  have unused := type "t_" (by decide) (by decide)
  refine List.forall_mem_append.mpr ⟨fixed, List.forall_mem_singleton.mpr
    ⟨?_, type "fn_" (by decide) (by decide), ?_⟩⟩
  · rw [accesses, symbols_statePointer]
    rfl
  · refine ⟨other _ (by decide), other _ (by decide), other _ (by decide), ?_⟩
    rw [unused]
    exact List.nil_subset _

/-- A word of the header that is voiced and has nothing to do with constants. -/
structure Heading (vars : List Variable) (word : String) : Prop where
  voiced : Voiced vars word
  uses : Uses [] word

namespace Heading

variable {uuid : Uuid} {vars : List Variable} {word : String}

theorem phrase (known : word ∈ phrases) (other : word ∉ scopeWords) : Heading vars word :=
  ⟨.phrase known, uses_phrase known other⟩

theorem name (letters : IsName word)
    (first : ∃ c ∉ ['s', 'f', 't', 'c', '\x7b', '\x7d'], word.toList.head? = some c) :
    Heading vars word := by
  obtain ⟨c, other, head⟩ := first
  have fewer : ['s', 'f', 't'] ⊆ ['s', 'f', 't', 'c', '\x7b', '\x7d'] := by decide
  have heads : ['\x7b', '\x7d', 'c', 't'] ⊆ ['s', 'f', 't', 'c', '\x7b', '\x7d'] := by decide
  have voiced : Voiced vars word := .name letters ⟨c, fun member => other (fewer member), head⟩
  exact ⟨voiced, voiced.uses_of_head head fun member => other (heads member)⟩

theorem own (uuid : Uuid) : Heading vars (functionName uuid) :=
  name (Assembly.isName_functionName uuid) ⟨'g', by decide, by simp [functionName]⟩

theorem stateType (uuid : Uuid) : Heading vars (functionName uuid ++ "_state") :=
  name (isName_stateType uuid) ⟨'g', by decide, head_functionName uuid _⟩

/-- The name of a variable. -/
theorem named {v : Variable} (member : v ∈ vars) : Heading vars v.name := by
  have underscore : '_' ∈ v.name.toList := by
    cases v <;> simp [Variable.name, Assembly.nodeVariable]
  have known : ∀ word ∈ scopeWords, '_' ∈ word.toList → word.toList.head? = some 't' := by decide
  have other : v.name ∉ scopeWords := by
    intro inside
    have head := (known _ inside underscore).symm.trans v.name_head
    cases v <;> simp at head
  have voiced : Voiced vars v.name := by
    cases v with
    | function hash => exact .text member
    | counter node =>
      exact .name (Variable.isName_name _) ⟨'c', by decide, Variable.name_head (.counter node)⟩
    | result node =>
      exact .name (Variable.isName_name _) ⟨'r', by decide, Variable.name_head (.result node)⟩
  exact ⟨voiced, voiced.uses other⟩

theorem type (v : Variable) : Heading vars v.declaration.type := by
  have types : ∀ type ∈ ["uint32_t", "int", "UserFunc"], type ∈ phrases ∧ type ∉ scopeWords := by
    decide
  obtain ⟨known, other⟩ := types _ v.type_mem
  exact phrase known other

theorem fieldWords {fields : List Variable} (known : fields ⊆ vars) :
    ∀ word ∈ fields.flatMap Variable.fieldWords, Heading vars word := by
  intro word member
  obtain ⟨v, inside, said⟩ := List.mem_flatMap.mp member
  have each : ∀ word ∈ v.fieldWords, Heading vars word := by
    simp (disch := decide) only [Variable.fieldWords, List.forall_mem_cons, List.not_mem_nil,
      false_imp_iff, implies_true, type, named (known inside), phrase, and_self]
  exact each word said

theorem fileWords {functions : List Variable} (known : functions ⊆ vars)
    (file : ∀ v ∈ functions, v.kind.isInstanceScoped = false) :
    ∀ word ∈ functions.flatMap Variable.fileWords, Heading vars word := by
  intro word member
  obtain ⟨v, inside, said⟩ := List.mem_flatMap.mp member
  have bound := file v inside
  have listed := known inside
  cases v with
  | counter | result => cases bound
  | function hash =>
    have split : words (Variable.function hash).declaration.initialText =
        ["get_function", "(", "0x" ++ hex32 hash, ")"] := by
      have letters : (Variable.function hash).declaration.initialText =
          "get_function(" ++ ("0x" ++ hex32 hash) ++ ")" :=
        String.toList_inj.mp (by simp [Variable.declaration])
      have whole : plain ("0x" ++ hex32 hash) = true :=
        Source.plain_append (by decide) (Source.plain_hex32 hash)
      rw [letters]
      simp (disch := simp +decide) only [words_append_of_opens, words_append_of_closes]
      rw [words_of_plain whole]
      rfl
    have digits : Heading vars ("0x" ++ hex32 hash) :=
      name ((Source.isName_append _ _).mpr ⟨by decide, Source.isName_hex32 hash⟩)
        ⟨'0', by decide, by simp⟩
    have each : ∀ word ∈ (Variable.function hash).fileWords, Heading vars word := by
      simp (disch := decide) only [Variable.fileWords, split, List.cons_append, List.nil_append,
        List.forall_mem_cons, List.not_mem_nil, false_imp_iff, implies_true, type, named listed,
        digits, phrase, and_self]
    exact each word said

/-- What the choice of an entry has between its brackets. -/
theorem caseWords (entries : Entries) : ∀ word ∈
    (Trigger.all.filter fun trigger => (entries.get trigger).isSome).flatMap (fun trigger =>
      ["case", trigger.constant, ":", "goto", trigger.label, ";"]) ++
        ["default", ":", "return", ";"], Heading vars word := by
  refine List.forall_mem_append.mpr ⟨fun word member => ?_, ?_⟩
  · obtain ⟨trigger, -, said⟩ := List.mem_flatMap.mp member
    have constant : Heading vars trigger.constant := by
      cases trigger <;> exact name (by decide) ⟨'T', by decide, by decide⟩
    have label : Heading vars trigger.label := by
      cases trigger <;> exact name (by decide) ⟨'e', by decide, by decide⟩
    have each : ∀ word ∈ ["case", trigger.constant, ":", "goto", trigger.label, ";"],
        Heading vars word := by
      simp (disch := decide) only [List.forall_mem_cons, List.not_mem_nil, false_imp_iff,
        implies_true, constant, label, phrase, and_self]
    exact each word said
  · simp (disch := decide) only [List.forall_mem_cons, List.not_mem_nil, false_imp_iff,
      implies_true, phrase, and_self]

end Heading

end NodeScript
