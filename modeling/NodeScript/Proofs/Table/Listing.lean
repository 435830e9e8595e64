import NodeScript.Proofs.Compile.Closure
import NodeScript.Proofs.Table.Additions

/-!
What the look-up part of a table lists. An array is read with the number of elements it is declared
with and the words of each initial value, a case with its label. All of them list the scripts of the
table in the order of their indices, and what they name is defined in the sources of these scripts.
-/
namespace NodeScript

open Source (OneLine IsName isNameLetter symbols numeral? words plain isComment spoken lines
  definitions words_append_of_opens words_append_of_closes words_of_plain)

namespace Source

/-- An array that is declared under the name: the number of its elements, and the words of each
initial value. -/
def array? (name : String) : List String → Option (Nat × List (List String))
  | "const" :: "uint16_t" :: declarator :: "=" :: "\x7b" :: values =>
    match symbols declarator with
    | [own, "[", count, "]"] =>
      if own = name ∧ values.dropWhile (· ≠ "\x7d") = ["\x7d", ";"] then
        (numeral? count.toList).map fun count =>
          (count, (values.takeWhile (· ≠ "\x7d")).splitOn ",")
      else none
    | _ => none
  | _ => none

/-- A case that returns a function: its label, and the function. -/
def case? : List String → Option (String × String)
  | ["case", label, ":", "return", function, ";"] => some (label, function)
  | _ => none

def arrays (name text : String) : List (Nat × List (List String)) :=
  (spoken (lines text)).filterMap (array? name)

def cases (text : String) : List (String × String) := (spoken (lines text)).filterMap case?

example : arrays "N" "const uint16_t N[2] = \x7b 1, f(2) \x7d;\n" =
    [(2, [["1"], ["f", "(", "2", ")"]])] := by decide +kernel

/-- What stands in front of the closing bracket is split at the commas. -/
theorem array?_declared {declarator name digits : String} {count : Nat}
    (split : symbols declarator = [name, "[", digits, "]"])
    (counted : numeral? digits.toList = some count) {values : List String}
    (inside : ∀ word ∈ values, word ≠ "\x7d") (asked : String) :
    array? asked ("const" :: "uint16_t" :: declarator :: "=" :: "\x7b" ::
        (values ++ ["\x7d", ";"])) =
      if name = asked then some (count, values.splitOn ",") else none := by
  have others : ∀ word ∈ values, decide (word ≠ "\x7d") = true :=
    fun word member => decide_eq_true (inside word member)
  have taken : (values ++ ["\x7d", ";"]).takeWhile (· ≠ "\x7d") = values := by
    rw [List.takeWhile_append_of_pos others]
    simp
  have left : (values ++ ["\x7d", ";"]).dropWhile (· ≠ "\x7d") = ["\x7d", ";"] := by
    rw [List.dropWhile_append_of_pos others]
    simp
  simp only [array?, split, left, and_true, taken, counted, Option.map_some]

theorem forall_mem_intercalate {α : Type} {p : α → Prop} {separator : α} (between : p separator)
    {lists : List (List α)} (each : ∀ list ∈ lists, ∀ item ∈ list, p item) :
    ∀ item ∈ [separator].intercalate lists, p item := by
  induction lists with
  | nil => nofun
  | cons first rest ih =>
    obtain ⟨head, others⟩ := List.forall_mem_cons.mp each
    cases rest with
    | nil => simpa using head
    | cons second rest =>
      rw [List.intercalate_cons_cons]
      exact List.forall_mem_append.mpr ⟨List.forall_mem_append.mpr
        ⟨head, List.forall_mem_singleton.mpr between⟩, ih others⟩

theorem words_intercalate (values : List String) :
    words (", ".intercalate values) = [","].intercalate (values.map words) := by
  have comma : words ", " = [","] := by decide
  induction values with
  | nil => rfl
  | cons first rest ih =>
    cases rest with
    | nil => simp
    | cons second rest =>
      rw [String.intercalate_cons_cons, words_append_of_closes _ (by simp +decide),
        words_append_of_opens _ (by decide), comma, ih]
      simp [List.intercalate_cons_cons]

end Source

theorem Script.Declares.plain_function {script : Script} (declares : script.Declares) :
    plain script.function = true := by
  rw [declares.function]
  exact Assembly.plain_functionName _

namespace Table

/-- The initial values of an array. -/
def initials (values : List String) : List String := if values.isEmpty then ["0"] else values

theorem length_initials (values : List String) :
    (initials values).length = max values.length 1 := by
  cases values with
  | nil => rfl
  | cons first rest => simp [initials]

/-- The words of an array. -/
def arrayWords (name : String) (values : List String) : List String :=
  ["const", "uint16_t", name ++ "[" ++ toString (max values.length 1) ++ "]", "=", "\x7b"] ++
    ([","].intercalate ((initials values).map words) ++ ["\x7d", ";"])

theorem words_arrayLine {name : String} (whole : plain name = true) (values : List String) :
    words (arrayLine name values) = arrayWords name values := by
  have shown : (if values.isEmpty then "0" else ", ".intercalate values) =
      ", ".intercalate (initials values) := by
    rw [initials]
    split <;> simp
  have declarator : plain (name ++ "[" ++ toString (max values.length 1) ++ "]") = true :=
    Source.plain_append (Source.plain_append (Source.plain_append whole (by decide))
      (Source.plain_repr _)) (by decide)
  have split (count content : String) :
      "const uint16_t " ++ name ++ "[" ++ count ++ "] = \x7b " ++ content ++ " \x7d;" =
        "const uint16_t " ++ (name ++ "[" ++ count ++ "]") ++ " = \x7b " ++ content ++ " \x7d;" :=
    String.toList_inj.mp (by simp)
  have start : words "const uint16_t " = ["const", "uint16_t"] := by decide
  have opening : words " = \x7b " = ["=", "\x7b"] := by decide
  have closing : words " \x7d;" = ["\x7d", ";"] := by decide
  unfold arrayLine
  rw [shown, split, words_append_of_opens _ (by decide), closing,
    words_append_of_closes _ (by simp +decide), Source.words_intercalate,
    words_append_of_opens _ (by decide), opening, words_append_of_closes _ (by decide), start,
    words_of_plain declarator, arrayWords]
  simp only [List.cons_append, List.nil_append]

/-- The values of an array are words without the signs between and behind them. -/
def Apart (values : List String) : Prop :=
  ∀ value ∈ values, ∀ word ∈ words value, word ≠ "," ∧ word ≠ "\x7d"

/-- The initial values of an array for all scripts, in words. -/
theorem map_words_initials {scripts : List Script} {value : Script → String}
    {split : Script → List String}
    (each : ∀ script ∈ scripts, words (value script) = split script) :
    (initials (scripts.map value)).map words =
      if scripts.isEmpty then [["0"]] else scripts.map split := by
  have zero : ["0"].map words = [["0"]] := by decide
  rw [initials, List.isEmpty_map]
  split
  · exact zero
  · rw [List.map_map]
    exact List.map_congr_left each

theorem Apart.initials {values : List String} (apart : Apart values) : Apart (initials values) := by
  rw [Table.initials]
  split
  · have zero : ∀ word ∈ words "0", word ≠ "," ∧ word ≠ "\x7d" := by decide
    exact List.forall_mem_singleton.mpr zero
  · exact apart

/-- An array is read with what it was written with. -/
theorem array?_arrayWords {name : String} (letters : IsName name) (nonempty : name ≠ "")
    {values : List String} (apart : Apart values) (asked : String) :
    Source.array? asked (arrayWords name values) =
      if name = asked then some (max values.length 1, (initials values).map words) else none := by
  have declarator (count : String) (digits : IsName count) (some : count ≠ "") :
      symbols (name ++ "[" ++ count ++ "]") = [name, "[", count, "]"] := by
    have last := Source.symbols_append digits some (by decide : isNameLetter ']' = false) ""
    have first := Source.symbols_append letters nonempty (by decide : isNameLetter '[' = false)
      (count ++ String.singleton ']' ++ "")
    rw [last, String.append_empty, ← String.append_assoc] at first
    exact first
  have each : ∀ value ∈ (initials values).map words, ∀ word ∈ value,
      word ≠ "," ∧ word ≠ "\x7d" := List.forall_mem_map.mpr apart.initials
  have inside : ∀ word ∈ [","].intercalate ((initials values).map words), word ≠ "\x7d" :=
    Source.forall_mem_intercalate (by decide) fun value member word said =>
      (each value member word said).2
  have split : ([","].intercalate ((initials values).map words)).splitOn "," =
      (initials values).map words := by
    refine List.splitOn_intercalate "," (fun value member said => ?_) ?_
    · exact (each value member _ said).1 rfl
    · refine List.ne_nil_of_length_pos ?_
      rw [List.length_map, length_initials]
      omega
  have all := Source.array?_declared
    (declarator _ (Source.isName_repr (max values.length 1)) Nat.repr_ne_empty)
    (Source.numeral?_repr _) inside asked
  rw [split] at all
  exact all

/-- The words of the size of a state. -/
def sizeWords (script : Script) : List String :=
  if script.hasInstanceState then ["sizeof", "(", script.function ++ "_state", ")"] else ["0"]

/-- The words of the case of a script. -/
def caseWords (script : Script) : List String :=
  ["case", "0x" ++ hex64 script.uuid ++ "ULL", ":", "return", script.function, ";"]

/-- The words of the look-up part, line by line. -/
def lookupWords (t : Table) : List (List String) :=
  [["#define", "SCRIPT_COUNT", toString t.size], []] ++
    [arrayWords "SCRIPT_STACK_SIZE" (t.scripts.map fun script =>
      toString script.stackSize.toNat), []] ++
    [arrayWords "SCRIPT_STATE_SIZE" (t.scripts.map stateSize), []] ++
    [["ScriptFn", "script_by_uuid", "(", "uint64_t", "uuid", ")", "\x7b"],
      ["switch", "(", "uuid", ")", "\x7b"]] ++
    t.scripts.map caseWords ++
    [["default", ":", "return", "script_dummy", ";"], ["\x7d"], ["\x7d"]]

theorem words_stateSize {script : Script} (whole : plain script.function = true) :
    words (stateSize script) = sizeWords script := by
  have type : plain (script.function ++ "_state") = true := Source.plain_append whole (by decide)
  have split : "sizeof(" ++ script.function ++ "_state)" =
      "sizeof(" ++ (script.function ++ "_state") ++ ")" := String.toList_inj.mp (by simp)
  have size : words "sizeof(" = ["sizeof", "("] := by decide
  have zero : words "0" = ["0"] := by decide
  rw [stateSize, sizeWords]
  split
  · rw [split, words_append_of_opens _ (by decide), words_append_of_closes _ (by decide), size,
      words_of_plain type]
    rfl
  · exact zero

theorem words_case {script : Script} (whole : plain script.function = true) :
    words ("    case 0x" ++ hex64 script.uuid ++ "ULL: return " ++ script.function ++ ";") =
      caseWords script := by
  have label : plain ("0x" ++ hex64 script.uuid ++ "ULL") = true :=
    Source.plain_append (Source.plain_append (by decide) (Source.plain_hex64 _)) (by decide)
  have split : "    case 0x" ++ hex64 script.uuid ++ "ULL: return " ++ script.function ++ ";" =
      "    case " ++ ("0x" ++ hex64 script.uuid ++ "ULL") ++ ": return " ++ script.function ++
        ";" := String.toList_inj.mp (by simp)
  rw [split]
  simp (disch := simp +decide) only [words_append_of_opens, words_append_of_closes]
  rw [words_of_plain label, words_of_plain whole]
  rfl

variable {t : Table}

theorem words_lookupLines (whole : ∀ script ∈ t.scripts, plain script.function = true) :
    t.lookupLines.map words = t.lookupWords := by
  have cases := List.map_congr_left fun script member => words_case (whole script member)
  have count : words ("#define SCRIPT_COUNT " ++ toString t.size) =
      ["#define", "SCRIPT_COUNT", toString t.size] := by
    have define : words "#define SCRIPT_COUNT " = ["#define", "SCRIPT_COUNT"] := by decide
    have digits : words (toString t.size) = [toString t.size] :=
      words_of_plain (Source.plain_repr _)
    rw [words_append_of_closes _ (by decide), define, digits]
    rfl
  have stack := @words_arrayLine "SCRIPT_STACK_SIZE" (by decide)
    (t.scripts.map fun script => toString script.stackSize.toNat)
  have state := @words_arrayLine "SCRIPT_STATE_SIZE" (by decide) (t.scripts.map stateSize)
  have head : words "ScriptFn script_by_uuid(uint64_t uuid) \x7b" =
      ["ScriptFn", "script_by_uuid", "(", "uint64_t", "uuid", ")", "\x7b"] := by decide
  have choice : words "  switch (uuid) \x7b" = ["switch", "(", "uuid", ")", "\x7b"] := by decide
  have ending : ["    default: return script_dummy;", "  \x7d", "\x7d"].map words =
      [["default", ":", "return", "script_dummy", ";"], ["\x7d"], ["\x7d"]] := by decide
  have empty : words "" = [] := rfl
  unfold lookupLines lookupWords
  simp only [List.map_append, List.map_cons, List.map_nil, List.map_map, Function.comp_def, count,
    stack, state, head, choice, empty] at ending ⊢
  rw [cases, ending]
  rfl

/-- What the look-up part says. It has no comments. -/
theorem spoken_lookupSource (declare : ∀ script ∈ t.scripts, script.Declares) :
    spoken (lines t.lookupSource) = t.lookupWords ++ [[]] := by
  have said := words_lookupLines fun script member => (declare script member).plain_function
  have voiced : ∀ line ∈ t.lookupWords, isComment line = false := by
    unfold lookupWords
    simp only [List.forall_mem_append, List.forall_mem_map]
    exact ⟨⟨⟨⟨⟨by simp [isComment], by simp [isComment, arrayWords]⟩,
      by simp [isComment, arrayWords]⟩, by simp [isComment]⟩, fun script _ => rfl⟩, by decide⟩
  rw [lookupSource, Source.spoken_join (defines_lookupLines declare).whole, spoken, said,
    List.filter_eq_self.mpr fun line member => by rw [voiced line member]; rfl]

/-- The arrays are those of the sizes. -/
theorem arrays_lookupWords (t : Table) (asked : String) :
    t.lookupWords.filterMap (Source.array? asked) =
      (Source.array? asked (arrayWords "SCRIPT_STACK_SIZE" (t.scripts.map fun script =>
        toString script.stackSize.toNat))).toList ++
      (Source.array? asked (arrayWords "SCRIPT_STATE_SIZE" (t.scripts.map stateSize))).toList := by
  have single (line : List String) : [line, []].filterMap (Source.array? asked) =
      (Source.array? asked line).toList := by
    have empty : Source.array? asked [] = none := rfl
    cases found : Source.array? asked line <;> simp [found, empty]
  have cases : (t.scripts.map caseWords).filterMap (Source.array? asked) = [] := by
    rw [List.filterMap_map]
    exact List.filterMap_eq_nil_iff.mpr fun script _ => rfl
  unfold lookupWords
  simp only [List.filterMap_append, cases, single]
  exact (List.append_nil _).trans ((List.append_nil _).trans (List.append_nil _))

/-- The cases are those of the scripts. -/
theorem cases_lookupWords (t : Table) : t.lookupWords.filterMap Source.case? =
    t.scripts.map fun script => ("0x" ++ hex64 script.uuid ++ "ULL", script.function) := by
  have cases : (t.scripts.map caseWords).filterMap Source.case? =
      t.scripts.map fun script => ("0x" ++ hex64 script.uuid ++ "ULL", script.function) := by
    rw [List.filterMap_map]
    exact congrFun List.filterMap_eq_map _
  unfold lookupWords
  simp only [List.filterMap_append, cases]
  exact List.append_nil _

theorem apart_of_plain {word : String} (whole : plain word = true) :
    word ≠ "," ∧ word ≠ "\x7d" := by
  constructor <;> rintro rfl <;> cases whole

theorem apart_stackSizes (scripts : List Script) :
    Apart (scripts.map fun script => toString script.stackSize.toNat) := by
  refine List.forall_mem_map.mpr fun script _ => ?_
  have digits : plain (toString script.stackSize.toNat) = true := Source.plain_repr _
  rw [words_of_plain digits]
  exact List.forall_mem_singleton.mpr (apart_of_plain digits)

theorem apart_stateSizes {scripts : List Script}
    (whole : ∀ script ∈ scripts, plain script.function = true) :
    Apart (scripts.map stateSize) := by
  refine List.forall_mem_map.mpr fun script member => ?_
  have type := Source.plain_append (whole script member) (by decide : plain "_state" = true)
  rw [words_stateSize (whole script member), sizeWords]
  split
  · exact List.forall_mem_cons.mpr ⟨by decide, List.forall_mem_cons.mpr ⟨by decide,
      List.forall_mem_cons.mpr ⟨apart_of_plain type, List.forall_mem_singleton.mpr (by decide)⟩⟩⟩
  · decide

/-- What a table lists, as it is read. -/
theorem arrays_lookupSource (declare : ∀ script ∈ t.scripts, script.Declares) :
    Source.arrays "SCRIPT_STACK_SIZE" t.lookupSource =
        [(max t.size 1, if t.scripts.isEmpty then [["0"]] else
          t.scripts.map fun script => [toString script.stackSize.toNat])] ∧
      Source.arrays "SCRIPT_STATE_SIZE" t.lookupSource =
        [(max t.size 1, if t.scripts.isEmpty then [["0"]] else t.scripts.map sizeWords)] ∧
      Source.cases t.lookupSource = t.scripts.map fun script =>
        ("0x" ++ hex64 script.uuid ++ "ULL", script.function) := by
  have whole : ∀ script ∈ t.scripts, plain script.function = true :=
    fun script member => (declare script member).plain_function
  have stack := array?_arrayWords (by decide : IsName "SCRIPT_STACK_SIZE") (by decide)
    (apart_stackSizes t.scripts)
  have state := array?_arrayWords (by decide : IsName "SCRIPT_STATE_SIZE") (by decide)
    (apart_stateSizes whole)
  have digits (n : Nat) : words (toString n) = [toString n] := words_of_plain (Source.plain_repr n)
  have arrays (asked : String) : Source.arrays asked t.lookupSource =
      t.lookupWords.filterMap (Source.array? asked) := by
    rw [Source.arrays, spoken_lookupSource declare, List.filterMap_append]
    exact List.append_nil _
  have cases : Source.cases t.lookupSource = t.lookupWords.filterMap Source.case? := by
    rw [Source.cases, spoken_lookupSource declare, List.filterMap_append]
    exact List.append_nil _
  refine ⟨?_, ?_, cases.trans t.cases_lookupWords⟩ <;>
    rw [arrays, arrays_lookupWords, stack, state,
      map_words_initials fun script _ => digits script.stackSize.toNat,
      map_words_initials fun script member => words_stateSize (whole script member),
      List.length_map, List.length_map] <;> rfl

/-- The only array that is read has as many initial values as it says, the value of each script at
the index of the script, or a single zero if there are no scripts. -/
def Lists (t : Table) (value : Script → List String)
    (arrays : List (Nat × List (List String))) : Prop :=
  ∃ values, arrays = [(values.length, values)] ∧ values.length = max t.size 1 ∧
    (t.size = 0 → values = [["0"]]) ∧
    ∀ index script, t.get? index = some script → values[index]? = some (value script)

/-- The arrays and the cases of a table list its scripts in the order of their indices, and the
functions and state structures that they name are defined in the sources of these scripts. -/
structure Directory (t : Table) : Prop where
  stack : t.Lists (fun script => [toString script.stackSize.toNat])
    (Source.arrays "SCRIPT_STACK_SIZE" t.lookupSource)
  state : t.Lists sizeWords (Source.arrays "SCRIPT_STATE_SIZE" t.lookupSource)
  size : (Source.cases t.lookupSource).length = t.size
  cases : ∀ index script, t.get? index = some script →
    (Source.cases t.lookupSource)[index]? =
      some ("0x" ++ hex64 script.uuid ++ "ULL", script.function)
  defined : ∀ index script, t.get? index = some script →
    script.function ∈ definitions script.source ∧
      (script.hasInstanceState = true → script.function ++ "_state" ∈ definitions script.source)

theorem lists_scripts (t : Table) (value : Script → List String) : t.Lists value
    [(max t.size 1, if t.scripts.isEmpty then [["0"]] else t.scripts.map value)] := by
  rw [Lists, size]
  cases same : t.scripts with
  | nil =>
    refine ⟨[["0"]], rfl, rfl, fun _ => rfl, fun index script found => ?_⟩
    simp [get?, same] at found
  | cons first rest =>
    refine ⟨(first :: rest).map value, ?_, ?_, fun none => ?_, fun index script found => ?_⟩
    · rw [List.length_map]
      exact congrArg (fun size => [(size, _)]) (by simp)
    · simp
    · simp at none
    · rw [get?, same] at found
      rw [List.getElem?_map, found]
      rfl

theorem directory {t : Table} (declare : ∀ script ∈ t.scripts, script.Declares) : t.Directory := by
  obtain ⟨stack, state, cases⟩ := arrays_lookupSource declare
  refine ⟨stack ▸ t.lists_scripts _, state ▸ t.lists_scripts _, ?_, ?_, ?_⟩
  · rw [cases, List.length_map, size]
  · intro index script found
    rw [get?] at found
    rw [cases, List.getElem?_map, found]
    rfl
  · intro index script found
    have declares := declare script (List.mem_of_getElem? found)
    rw [declares.definitions_source]
    constructor
    · simp [Script.fileScope, Script.ownNames]
    · intro instances
      simp [Script.fileScope, Script.ownNames, instances]

end Table

/-- A script that an accepted graph was compiled to, where the texts that comments repeat have no
line breaks. -/
def Script.Rendered (script : Script) : Prop :=
  ∃ (job : Job) (uuid : Uuid), (job.compile uuid).value = .ok script ∧
    Graph.ofParts job.graph.nodes job.graph.links = .ok job.graph ∧ OneLine job.asset ∧
    ∀ node ∈ job.graph.nodes, OneLine node.kind.title

/-- Scripts of a table were added to it. -/
theorem Table.mem_of_mem_foldl_add {t : Table} (ascending : t.Ascending) {scripts : List Script}
    {script : Script} (member : script ∈ (scripts.foldl add t).scripts) :
    script ∈ scripts ∨ script ∈ t.scripts := by
  induction scripts generalizing t with
  | nil => exact .inr member
  | cons first rest ih =>
    rcases ih (ascending.add first) member with later | inside
    · exact .inl (List.mem_cons_of_mem _ later)
    · rcases (ascending.mem_add).mp inside with rfl | ⟨earlier, -⟩
      · exact .inl (List.mem_cons_self ..)
      · exact .inr earlier

/-- Source text is closed. The source of every compiled script declares the fields, user functions
and constants that it uses, and its state if it has one; a table that such scripts were added to
lists its scripts in order and names nothing but what their sources define. -/
theorem rendered_sources_are_closed {scripts : List Script}
    (rendered : ∀ script ∈ scripts, script.Rendered) :
    (∀ script ∈ scripts, script.Closed) ∧
      (∀ index script, (scripts.foldl Table.add .empty).get? index = some script →
        script ∈ scripts) ∧
      (scripts.foldl Table.add .empty).Directory := by
  have known : ∀ script ∈ (scripts.foldl Table.add .empty).scripts, script ∈ scripts :=
    fun script member => (Table.mem_of_mem_foldl_add Table.ascending_empty member).resolve_right
      List.not_mem_nil
  refine ⟨fun script member => ?_, fun index script found =>
    known script (List.mem_of_getElem? found), Table.directory fun script member => ?_⟩
  · obtain ⟨job, uuid, compiled, accepted, named, titled⟩ := rendered script member
    exact Job.closed_source_of_compile (Graph.wellFormed_of_ofParts accepted) compiled named titled
  · obtain ⟨job, uuid, compiled, accepted, named, titled⟩ := rendered script (known script member)
    exact Job.declares_of_compile (Graph.wellFormed_of_ofParts accepted) compiled named titled

/-- A comparison with the result of a function that no path leads to. -/
def Graph.unrun : Graph where
  nodes := [⟨1, .start, .origin⟩, ⟨2, .compare .equal, .origin⟩, ⟨3, .function "tick" 3, .origin⟩]
  links := [⟨1, 0, 2, 0⟩, ⟨3, 1, 2, 1⟩]

theorem Graph.unrun_accepted :
    Graph.ofParts Graph.unrun.nodes Graph.unrun.links = .ok Graph.unrun := by rfl

/-- The unit of a result that is never set has a state all the same, and its script, which is added
last, is listed first. -/
theorem rendered_sources_are_closed_unrun :
    ∃ script other, (Job.compile ⟨Graph.sample, "sample", none⟩ 9).value = .ok script ∧
      (Job.compile ⟨Graph.unrun, "unrun", none⟩ 5).value = .ok other ∧
      (∀ each ∈ [script, other], each.Rendered) ∧ script.Closed ∧
      (Source.structures (Source.speech other.source)).map Prod.fst =
        [functionName 5 ++ "_state"] ∧
      (Source.cases ([script, other].foldl Table.add .empty).lookupSource)[0]? =
        some ("0x" ++ hex64 5 ++ "ULL", functionName 5) := by
  obtain ⟨script, compiled⟩ := @Job.compile_of_small ⟨Graph.sample, "sample", none⟩
    (Graph.wellFormed_of_ofParts Graph.sample_accepted) (by decide) 9
  obtain ⟨other, compiled'⟩ := @Job.compile_of_small ⟨Graph.unrun, "unrun", none⟩
    (Graph.wellFormed_of_ofParts Graph.unrun_accepted) (by decide) 5
  have state : (Job.compile ⟨Graph.unrun, "unrun", none⟩ 5).value.toOption.map
      (·.hasInstanceState) = some true := by decide +kernel
  rw [compiled'] at state
  have instances : other.hasInstanceState = true := Option.some.inj state
  have first : script.Rendered :=
    ⟨_, 9, compiled, Graph.sample_accepted, by decide, by decide +kernel⟩
  have second : other.Rendered :=
    ⟨_, 5, compiled', Graph.unrun_accepted, by decide, by decide +kernel⟩
  have rendered : ∀ each ∈ [script, other], each.Rendered :=
    List.forall_mem_cons.mpr ⟨first, List.forall_mem_singleton.mpr second⟩
  obtain ⟨closed, -, directory⟩ := rendered_sources_are_closed rendered
  have last := closed other (List.mem_cons_of_mem _ (List.mem_singleton_self _))
  have kept {job : Job} {uuid : Uuid} {script : Script}
      (compiled : (job.compile uuid).value = .ok script) : script.uuid = uuid := by
    obtain ⟨layout, -, -, rfl⟩ := Job.compile_eq_ok compiled
    rfl
  have uuid := kept compiled
  have uuid' := kept compiled'
  have function : other.function = functionName 5 := uuid' ▸ last.function
  have ordered : Table.Ascending ⟨[other, script]⟩ := by
    refine List.pairwise_pair.mpr ?_
    rw [uuid, uuid']
    decide
  have table : [script, other].foldl Table.add .empty = ⟨[other, script]⟩ :=
    Table.foldl_add_reverse ordered
  refine ⟨script, other, compiled, compiled', rendered, closed script (List.mem_cons_self ..), ?_,
    ?_⟩
  · rw [last.types, if_pos instances, function]
  · rw [directory.cases 0 other (by rw [table]; rfl), uuid', function]

end NodeScript
