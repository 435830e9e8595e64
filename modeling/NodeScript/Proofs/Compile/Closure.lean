import NodeScript.Proofs.Compile.Header
import NodeScript.Proofs.Table.Definitions

/-!
The source of a unit is closed: what it uses is declared in it. Fields of the state are declared in
its state structure, user functions at file scope, and constants in the block that uses them; the
state structure and the pointer to it are there exactly if the unit has a state.
-/
namespace NodeScript

open Source (OneLine accesses namesWith scan fields? structure? pointer? structures pointers scopes
  speech wordingLine Enclosed Scoped)

/-- Between the brackets of a structure stand its fields. -/
theorem fields?_fieldWords (fields : List Variable) (rest : List String) :
    fields? (fields.flatMap Variable.fieldWords ++ "\x7d" :: rest) =
      some (fields.map Variable.name, rest) := by
  have types : ∀ type ∈ ["uint32_t", "int", "UserFunc"], type ≠ "\x7d" := by decide
  induction fields with
  | nil => rfl
  | cons v fields ih =>
    change fields? (v.declaration.type :: v.name :: ";" ::
      (fields.flatMap Variable.fieldWords ++ "\x7d" :: rest)) = _
    rw [fields?, ih]
    · rfl
    · exact types _ v.type_mem

/-- The structures and the pointers that the words declare, whatever follows them. -/
def Introduces (words : List String) (types : List (String × List String))
    (references : List (String × String)) : Prop :=
  ∀ rest, structures (words ++ rest) = types ++ structures rest ∧
    pointers (words ++ rest) = references ++ pointers rest

namespace Introduces

variable {words others : List String} {types more : List (String × List String)}
  {references further : List (String × String)}

theorem append (first : Introduces words types references)
    (second : Introduces others more further) :
    Introduces (words ++ others) (types ++ more) (references ++ further) := by
  intro rest
  rw [List.append_assoc, (first _).1, (first _).2, (second _).1, (second _).2]
  simp only [List.append_assoc, and_self]

/-- Words that are no marks of the state introduce nothing. -/
theorem voiced {vars : List Variable} (voiced : ∀ word ∈ words, Voiced vars word) :
    Introduces words [] [] := fun rest =>
  ⟨Source.scan_append_of_none (fun word member =>
      Source.structure?_eq_none (voiced word member).plain.1) rest,
    Source.scan_append_of_none (fun word member =>
      Source.pointer?_eq_none (voiced word member).plain.2) rest⟩

theorem phrases (known : words ⊆ NodeScript.phrases) : Introduces words [] [] :=
  voiced fun _ member => (.phrase (known member) : Voiced [] _)

theorem structures_eq (all : Introduces words types references) :
    structures words = types ∧ pointers words = references := by
  have whole := all []
  rw [List.append_nil] at whole
  exact ⟨whole.1.trans (List.append_nil _), whole.2.trans (List.append_nil _)⟩

variable (uuid : Uuid) {vars : List Variable} (fields : List Variable) (entries : Entries)
  {body : List String}

theorem stateWords (known : fields ⊆ vars) :
    Introduces (stateWords (functionName uuid) fields)
      (if fields.isEmpty then [] else [(functionName uuid ++ "_state", fields.map Variable.name)])
      [] := by
  rw [NodeScript.stateWords]
  split
  · exact fun _ => ⟨rfl, rfl⟩
  have inside : Introduces ("\x7b" :: (fields.flatMap Variable.fieldWords ++ ["\x7d"]) ++
      [functionName uuid ++ "_state", ";"]) [] [] := by
    have field := fun word member => (Heading.fieldWords known word member).voiced
    have type : Voiced vars (functionName uuid ++ "_state") := (Heading.stateType uuid).voiced
    refine voiced (List.forall_mem_append.mpr ⟨List.forall_mem_cons.mpr ⟨.phrase (by decide),
      List.forall_mem_append.mpr ⟨field, List.forall_mem_singleton.mpr (.phrase (by decide))⟩⟩, ?_⟩)
    exact List.forall_mem_cons.mpr ⟨type, List.forall_mem_singleton.mpr (.phrase (by decide))⟩
  intro rest
  obtain ⟨types, references⟩ := inside rest
  have found : structure? "struct" ("\x7b" :: (fields.flatMap Variable.fieldWords ++ ["\x7d"]) ++
      [functionName uuid ++ "_state", ";"] ++ rest) =
        some (functionName uuid ++ "_state", fields.map Variable.name) := by
    simp only [List.cons_append, List.append_assoc, List.nil_append]
    rw [structure?, if_pos rfl, fields?_fieldWords]
    rfl
  have starless : ∀ word ∈ ["typedef", "struct"], '*' ∉ word.toList := by decide
  rw [List.append_assoc ["typedef", "struct"], List.append_assoc ["typedef", "struct"]]
  constructor
  · exact congrArg₂ (fun type others => Option.toList type ++ others) found types
  · refine (Source.scan_append_of_none (fun word member =>
      Source.pointer?_eq_none (starless word member)) _).trans ?_
    exact references

/-- The pointer to the instance is declared without a value. -/
theorem functionWords : Introduces (functionWords (functionName uuid)) [] [] := by
  have own : Voiced [] (functionName uuid) := (Heading.own uuid).voiced
  have before : Introduces ["void", functionName uuid, "("] [] [] := by
    refine voiced (?_ : ∀ word ∈ _, Voiced [] word)
    simp (disch := decide) only [List.forall_mem_cons, List.not_mem_nil, false_imp_iff,
      implies_true, own, Voiced.phrase, and_self]
  have pointer : Introduces ["Instance*", "inst", ","] [] [] := fun rest =>
    (phrases (by decide) : Introduces ["inst", ","] [] []) rest
  exact (before.append pointer).append
    (phrases (by decide) : Introduces ["Trigger", "trigger", ")"] [] [])

/-- The pointer to the state is declared with its value, which names the type a second time. -/
theorem pointerWords : Introduces (pointerWords (functionName uuid) fields) []
    (if fields.isEmpty then [] else [(functionName uuid ++ "_state", "state")]) := by
  rw [NodeScript.pointerWords]
  split
  · exact fun _ => ⟨rfl, rfl⟩
  have other : functionName uuid ++ "_state*" ≠ "struct" := by
    intro same
    have heads : "struct".toList.head? ≠ some 'g' := by decide
    exact heads (same ▸ head_functionName uuid _)
  have skip (rest : List String) :
      structures ((functionName uuid ++ "_state*") :: rest) = structures rest := by
    rw [structures, scan, Source.structure?_eq_none other]
    rfl
  have first : Introduces [functionName uuid ++ "_state*", "state", "="] []
      [(functionName uuid ++ "_state", "state")] := by
    intro rest
    obtain ⟨types, references⟩ := (phrases (by decide) : Introduces ["state", "="] [] []) rest
    refine ⟨(skip _).trans types, ?_⟩
    change (pointer? _ ("state" :: "=" :: rest)).toList ++ pointers (["state", "="] ++ rest) = _
    rw [references, pointer?, symbols_statePointer]
    rfl
  have second : Introduces [functionName uuid ++ "_state*", ")", "inst->state"] [] [] := by
    intro rest
    obtain ⟨types, references⟩ :=
      (phrases (by decide) : Introduces [")", "inst->state"] [] []) rest
    exact ⟨(skip _).trans types, references⟩
  exact ((first.append (phrases (by decide) : Introduces ["("] [] [])).append second).append
    (phrases (by decide) : Introduces [";"] [] [])

theorem choiceWords : Introduces (choiceWords entries) [] [] := by
  have inside := fun word member => (Heading.caseWords entries word member : Heading [] word).voiced
  exact (phrases (by decide) : Introduces ["switch", "(", "trigger", ")", "\x7b"] [] []).append
    ((voiced inside).append (phrases (by decide) : Introduces ["\x7d"] [] []))

/-- The state structure and the pointer to it are all that a unit introduces. -/
theorem unitWords (known : ∀ word ∈ body, Voiced vars word) :
    let fields := vars.filter fun v => v.kind.isInstanceScoped
    Introduces (unitWords uuid vars entries body)
      (if fields.isEmpty then [] else [(functionName uuid ++ "_state", fields.map Variable.name)])
      (if fields.isEmpty then [] else [(functionName uuid ++ "_state", "state")]) := by
  intro fields
  have files := fun word member => (@Heading.fileWords vars
    (vars.filter fun v => !v.kind.isInstanceScoped) List.filter_sublist.subset
    (by simp) word member).voiced
  have inside := (pointerWords uuid fields).append (((choiceWords entries).append
    (voiced known)).append (phrases (by decide) : Introduces ["\x7d"] [] []))
  have function := ((functionWords uuid).append
    (phrases (by decide) : Introduces ["\x7b"] [] [])).append inside
  have all := (voiced files).append
    ((stateWords uuid fields List.filter_sublist.subset).append function)
  simp only [List.append_assoc, List.nil_append, List.append_nil, List.singleton_append] at all
  rw [NodeScript.unitWords]
  simp only [List.append_assoc]
  exact all

end Introduces

/-- Words that are voiced or marks of the state, with scopes that are closed. -/
structure Proper (uuid : Uuid) (vars : List Variable) (words : List String) : Prop where
  known : ∀ word ∈ words, Voiced vars word ∨ word ∈ stateMarks uuid
  enclosed : Enclosed [] words

namespace Proper

variable {uuid : Uuid} {vars : List Variable} {words others : List String}

theorem append (first : Proper uuid vars words) (second : Proper uuid vars others) :
    Proper uuid vars (words ++ others) :=
  ⟨List.forall_mem_append.mpr ⟨first.known, second.known⟩, first.enclosed.append second.enclosed⟩

theorem block (inside : Proper uuid vars words) :
    Proper uuid vars ("\x7b" :: (words ++ ["\x7d"])) :=
  ⟨List.forall_mem_cons.mpr ⟨.inl (.phrase (by decide)), List.forall_mem_append.mpr
    ⟨inside.known, List.forall_mem_singleton.mpr (.inl (.phrase (by decide)))⟩⟩,
    inside.enclosed.block⟩

theorem heading (each : ∀ word ∈ words, Heading vars word) : Proper uuid vars words :=
  ⟨fun word member => .inl (each word member).voiced,
    .flat fun word member => (each word member).uses⟩

theorem phrases (known : ∀ word ∈ words, word ∈ NodeScript.phrases ∧ word ∉ scopeWords) :
    Proper uuid vars words :=
  heading fun word member => .phrase (known word member).1 (known word member).2

theorem mark {word : String} (known : word ∈ stateMarks uuid) : Proper uuid vars [word] :=
  ⟨List.forall_mem_singleton.mpr (.inr known),
    .flat (List.forall_mem_singleton.mpr (silent_stateMarks uuid word known).2.2)⟩

/-- What is used of the state in a proper text are names of variables. -/
theorem accesses (proper : Proper uuid vars words) {word field : String} (member : word ∈ words)
    (used : field ∈ Source.accesses word) :
    ∃ v ∈ vars, v.kind.isInstanceScoped = true ∧ field = v.name := by
  rcases proper.known word member with voiced | mark
  · exact voiced.accesses used
  · rw [(silent_stateMarks uuid word mark).1] at used
    cases used

theorem functions (proper : Proper uuid vars words) {word name : String} (member : word ∈ words)
    (used : name ∈ namesWith "fn_" word) :
    ∃ hash, .function hash ∈ vars ∧ name = (Variable.function hash).name := by
  rcases proper.known word member with voiced | mark
  · exact voiced.functions used
  · rw [(silent_stateMarks uuid word mark).2.1] at used
    cases used

variable (uuid) (fields : List Variable)

theorem statePointer : Proper uuid vars [functionName uuid ++ "_state*"] :=
  mark (List.mem_cons_of_mem _ (List.mem_cons_of_mem _ (List.mem_singleton_self _)))

theorem stateWords (known : fields ⊆ vars) :
    Proper uuid vars (stateWords (functionName uuid) fields) := by
  rw [NodeScript.stateWords]
  split
  · exact phrases (List.forall_mem_nil _)
  have type : ∀ word ∈ [functionName uuid ++ "_state", ";"], Heading vars word :=
    List.forall_mem_cons.mpr ⟨.stateType uuid,
      List.forall_mem_singleton.mpr (.phrase (by decide) (by decide))⟩
  have start : Proper uuid vars ["typedef"] := phrases (by decide)
  exact ((start.append (mark (List.mem_cons_self ..))).append
    (heading (Heading.fieldWords known)).block).append (heading type)

theorem functionWords : Proper uuid vars (functionWords (functionName uuid)) := by
  have before : ∀ word ∈ ["void", functionName uuid, "("], Heading vars word := by
    simp (disch := decide) only [List.forall_mem_cons, List.not_mem_nil, false_imp_iff,
      implies_true, Heading.own, Heading.phrase, and_self]
  have pointer : Proper uuid vars ["Instance*"] :=
    mark (List.mem_cons_of_mem _ (List.mem_cons_self ..))
  have behind : Proper uuid vars ["inst", ",", "Trigger", "trigger", ")"] := phrases (by decide)
  exact ((heading before).append pointer).append behind

theorem pointerWords : Proper uuid vars (pointerWords (functionName uuid) fields) := by
  rw [NodeScript.pointerWords]
  split
  · exact phrases (List.forall_mem_nil _)
  have between : Proper uuid vars ["state", "=", "("] := phrases (by decide)
  have behind : Proper uuid vars [")", "inst->state", ";"] := phrases (by decide)
  exact (((statePointer uuid).append between).append (statePointer uuid)).append behind

theorem choiceWords (entries : Entries) : Proper uuid vars (choiceWords entries) := by
  have before : Proper uuid vars ["switch", "(", "trigger", ")"] := phrases (by decide)
  exact before.append (heading (Heading.caseWords entries)).block

/-- A unit is proper if its body is. -/
theorem unitWords {entries : Entries} {body : List String} (inside : Proper uuid vars body) :
    Proper uuid vars (unitWords uuid vars entries body) := by
  have files : Proper uuid vars _ := heading (@Heading.fileWords vars
    (vars.filter fun v => !v.kind.isInstanceScoped) List.filter_sublist.subset (by simp))
  refine files.append ((stateWords uuid _ List.filter_sublist.subset).append
    ((functionWords uuid).append ?_))
  exact ((pointerWords uuid _).append ((choiceWords uuid entries).append inside)).block

end Proper

/-- What the source of a script uses is declared in it: fields of the state, user functions at file
scope and constants in the same scope, all of them once. There is a state structure, with a pointer
to it, if and only if instances have variables of their own. -/
structure Script.Closed (script : Script) : Prop where
  function : script.function = functionName script.uuid
  fields : ∀ word ∈ speech script.source, ∀ field ∈ accesses word, ∃ names,
    structures (speech script.source) = [(script.function ++ "_state", names)] ∧
      names.count field = 1
  types : (structures (speech script.source)).map Prod.fst =
    if script.hasInstanceState then [script.function ++ "_state"] else []
  pointers : pointers (speech script.source) =
    if script.hasInstanceState then [(script.function ++ "_state", "state")] else []
  functions : ∀ word ∈ speech script.source, ∀ name ∈ namesWith "fn_" word,
    (Source.definitions script.source).count name = 1
  constants : ∀ scope ∈ scopes [] [] (speech script.source), Scoped scope

namespace Script.Declares

variable {script : Script}

theorem definitions_source (declares : script.Declares) :
    Source.definitions script.source = script.fileScope := by
  have all := declares.source ""
  have none : Source.definitions "" = [] := by decide
  rwa [String.append_empty, none, List.append_nil] at all

/-- A script defines the user functions that it binds once. -/
theorem count_definitions (declares : script.Declares) {hash : UInt32}
    (bound : script.binds hash = true) :
    (Source.definitions script.source).count ("fn_" ++ hex32 hash) = 1 := by
  have other : "fn_" ++ hex32 hash ∉ script.ownNames :=
    fun member => declares.ne_reference member hash rfl
  rw [declares.definitions_source, Script.fileScope, List.count_append, declares.count_references,
    if_pos bound, List.count_eq_zero.mpr other]

end Script.Declares

/-- The words of a compiled script, and its variables. -/
theorem Job.speech_of_compile {job : Job} (formed : job.graph.WellFormed) {uuid : Uuid}
    {script : Script} (compiled : (job.compile uuid).value = .ok script) (named : OneLine job.asset)
    (titled : ∀ node ∈ job.graph.nodes, OneLine node.kind.title) :
    ∃ (layout : Layout) (after : List Uuid) (entries : Entries),
      Chain.LaysAll job.graph Trigger.all [] layout after ∧
      script.function = functionName uuid ∧
      script.program.globals.toList =
        (layout.vars job.graph).map (fun v => v.declaration.global) ∧
      ((layout.vars job.graph).filter fun v => v.kind.isInstanceScoped).isEmpty =
        !script.hasInstanceState ∧
      speech script.source = unitWords uuid (layout.vars job.graph) entries
        ((layout.lines job.graph).flatMap wordingLine) := by
  obtain ⟨layout, after, -, laid, few, rfl⟩ := Job.laid_of_compile formed compiled
  obtain ⟨globals, lines⟩ := laid.drafted few
  have inner : ∀ line ∈ (job.draft layout).1.assembly.lines.toList, line.Inner :=
    lines ▸ laid.lines_inner titled
  have legible : ∀ line ∈ (job.draft layout).1.assembly.lines.toList, Source.legibleLine line :=
    lines ▸ Layout.lines_legible job.graph layout
  have said := @Assembly.speech_source _ _ uuid job.asset (job.draft layout).2 globals inner
    legible named
  have state := @Assembly.isEmpty_stateLines uuid job.asset (job.draft layout).2
    (job.draft layout).1.assembly
  rw [lines] at said
  rw [Assembly.stateLines_eq globals, List.isEmpty_map] at state
  refine ⟨layout, after, (job.draft layout).2, laid, rfl, ?_, state, said⟩
  simp [Assembly.toScript, globals, Variable.table]

/-- The source of a compiled script is closed. -/
theorem Job.closed_source_of_compile {job : Job} (formed : job.graph.WellFormed) {uuid : Uuid}
    {script : Script} (compiled : (job.compile uuid).value = .ok script) (named : OneLine job.asset)
    (titled : ∀ node ∈ job.graph.nodes, OneLine node.kind.title) : script.Closed := by
  have declares := Job.declares_of_compile formed compiled named titled
  obtain ⟨layout, after, entries, laid, function, table, state, said⟩ :=
    Job.speech_of_compile formed compiled named titled
  have voiced := layout.voiced_lines job.graph
  have body : Proper uuid (layout.vars job.graph)
      ((layout.lines job.graph).flatMap wordingLine) :=
    ⟨fun word member => .inl (voiced word member), laid.enclosed_lines⟩
  have proper := @Proper.unitWords _ _ entries _ body
  obtain ⟨types, references⟩ := (Introduces.unitWords uuid entries voiced).structures_eq
  rw [state, ← function] at types references
  refine ⟨declares.function, ?_, ?_, ?_, ?_, ?_⟩ <;> rw [said]
  · intro word member field used
    obtain ⟨v, known, own, rfl⟩ := proper.accesses member used
    have inside : v ∈ (layout.vars job.graph).filter fun v => v.kind.isInstanceScoped :=
      List.mem_filter.mpr ⟨known, own⟩
    have some : script.hasInstanceState = true := by
      rw [List.isEmpty_eq_false_iff_exists_mem.mpr ⟨v, inside⟩] at state
      simpa using state
    have distinct := (layout.nodup_vars job.graph).filter fun v => v.kind.isInstanceScoped
    refine ⟨_, types.trans (by rw [some]; rfl), ?_⟩
    rw [List.count_map_of_injective _ _ fun _ _ => Variable.name_injective]
    exact List.count_eq_one_of_mem distinct inside
  · rw [types]
    cases script.hasInstanceState <;> rfl
  · rw [references]
    cases script.hasInstanceState <;> rfl
  · intro word member name used
    obtain ⟨hash, known, rfl⟩ := proper.functions member used
    exact declares.count_definitions ((Script.binds_iff table).mpr known)
  · exact proper.enclosed.forall_scopes

end NodeScript
