import Mathlib.Data.List.Count
import Mathlib.Data.List.Perm.Basic
import NodeScript.Proofs.Compile.Declarations
import NodeScript.Proofs.Graph.Documents
import NodeScript.Proofs.Table.Scripts
import NodeScript.Table.Source

/-!
The file-scope names in the source of a whole project. The sources of its scripts stand one after
the other, so a name is defined as often as there are scripts that define it. Functions and state
structures carry the identifier of their asset and are defined once; a user function is declared
anew by every script that calls it.
-/
namespace NodeScript

open Source (OneLine IsName Defines Silent definitions definition?_eq_none definition?_introduced
  definitions_line oneLine_append oneLine_hex64)

namespace Table

/-- The names that the look-up part of every table defines. -/
def lookupNames : List String :=
  ["SCRIPT_COUNT", "SCRIPT_STACK_SIZE", "SCRIPT_STATE_SIZE", "script_by_uuid"]

/-- An array is defined on a line of its own. -/
theorem defines_arrayLine {name : String} (letters : IsName name) {values lines names : List String}
    (each : ∀ value ∈ values, OneLine value) (rest : Defines lines names) :
    Defines (arrayLine name values :: lines) (name :: names) := by
  have joined : OneLine (if values.isEmpty then "0" else ", ".intercalate values) := by
    split
    · decide
    · exact Source.oneLine_intercalate (by decide) each
  have counted : OneLine (toString (max values.length 1)) := (Source.isName_repr _).oneLine
  unfold arrayLine
  generalize (if values.isEmpty then "0" else ", ".intercalate values) = content at joined ⊢
  generalize toString (max values.length 1) = count at counted ⊢
  refine .cons (by simp +decide [letters.oneLine, joined, counted]) ?_ rest
  have named := @definition?_introduced "const uint16_t " name
    ("[" ++ count ++ "] = \x7b " ++ content ++ " \x7d;") (by decide) letters (by simp +decide)
  simpa only [String.append_assoc] using named

variable {t : Table}

/-- What the look-up part defines. -/
theorem defines_lookupLines (declare : ∀ script ∈ t.scripts, script.Declares) :
    Defines t.lookupLines lookupNames := by
  have function : ∀ script ∈ t.scripts, OneLine script.function := by
    intro script member
    rw [(declare script member).function]
    exact (Assembly.isName_functionName _).oneLine
  have sizes : ∀ value ∈ t.scripts.map fun script => toString script.stackSize.toNat,
      OneLine value := by
    intro value member
    obtain ⟨script, -, rfl⟩ := List.mem_map.mp member
    exact (Source.isName_repr _).oneLine
  have states : ∀ value ∈ t.scripts.map stateSize, OneLine value := by
    intro value member
    obtain ⟨script, inside, rfl⟩ := List.mem_map.mp member
    unfold stateSize
    split
    · simp +decide [function script inside]
    · decide
  have size : OneLine ("#define SCRIPT_COUNT " ++ toString t.size) :=
    (oneLine_append _ _).mpr ⟨by decide, (Source.isName_repr _).oneLine⟩
  have cases : ∀ line ∈ t.scripts.map (fun script =>
      "    case 0x" ++ hex64 script.uuid ++ "ULL: return " ++ script.function ++ ";"),
      Silent line := by
    intro line member
    obtain ⟨script, inside, rfl⟩ := List.mem_map.mp member
    refine ⟨?_, definition?_eq_none (by simp)⟩
    simp +decide [function script inside, oneLine_hex64]
  have counted : Source.definition? ("#define SCRIPT_COUNT " ++ toString t.size).toList =
      some "SCRIPT_COUNT" :=
    @definition?_introduced "#define " "SCRIPT_COUNT" (" " ++ toString t.size) (by decide)
      (by decide) (by simp +decide)
  have head : Defines
      ["#define SCRIPT_COUNT " ++ toString t.size, "",
        arrayLine "SCRIPT_STACK_SIZE" (t.scripts.map fun script => toString script.stackSize.toNat),
        "", arrayLine "SCRIPT_STATE_SIZE" (t.scripts.map stateSize), "",
        "ScriptFn script_by_uuid(uint64_t uuid) \x7b", "  switch (uuid) \x7b"] lookupNames := by
    refine .cons size counted (.skip (by decide) (defines_arrayLine (by decide) sizes ?_))
    refine .skip (by decide) (defines_arrayLine (by decide) states (.skip (by decide) ?_))
    exact .cons (by decide) (by decide) (.silent (by decide))
  have all := (head.append (.silent cases)).append
    (.silent (by decide) : Defines ["    default: return script_dummy;", "  \x7d", "\x7d"] [])
  rw [List.append_nil, List.append_nil] at all
  exact all

/-- The sources of scripts, with an empty line after each, define what the scripts do. -/
theorem definitions_sources {scripts : List Script} (some : scripts ≠ [])
    (declare : ∀ script ∈ scripts, script.Declares) (rest : String) :
    definitions ("\n".intercalate (scripts.map (·.source)) ++ "\n" ++ rest) =
      scripts.flatMap Script.fileScope ++ definitions rest := by
  have blank (rest : String) : definitions ("\n" ++ rest) = definitions rest := by
    have line := @definitions_line "" (by decide) rest
    rwa [String.empty_append] at line
  induction scripts with
  | nil => exact absurd rfl some
  | cons script scripts ih =>
    obtain ⟨first, others⟩ := List.forall_mem_cons.mp declare
    cases scripts with
    | nil =>
      rw [List.map_singleton, String.intercalate_singleton, String.append_assoc, first.source,
        blank]
      simp
    | cons second scripts =>
      have spec := ih (List.cons_ne_nil _ _) others
      simp only [List.map_cons] at spec ⊢
      rw [String.intercalate_cons_cons, String.append_assoc, String.append_assoc,
        String.append_assoc, first.source, blank, ← String.append_assoc, spec]
      simp only [List.flatMap_cons, List.append_assoc]

/-- The source of a table defines what its scripts define, and what the look-up part does. -/
theorem definitions_source (declare : ∀ script ∈ t.scripts, script.Declares) :
    definitions t.source = t.scripts.flatMap Script.fileScope ++ lookupNames := by
  have last : definitions t.lookupSource = lookupNames := by
    have lines := (defines_lookupLines declare).definitions ""
    rw [String.append_empty] at lines
    exact lines.trans (by decide)
  by_cases empty : t.scripts = []
  · rw [source, empty]
    simpa using last
  · have sources := definitions_sources empty declare
    have nonempty : ("\n".intercalate (t.scripts.map (·.source))).isEmpty = false := by
      rw [Bool.eq_false_iff]
      intro nothing
      obtain ⟨script, others, scripts⟩ := List.exists_cons_of_ne_nil empty
      have nameless := sources ""
      rw [String.isEmpty_iff.mp nothing, scripts] at nameless
      have none : definitions "\n" = [] := by decide
      simp [none, Script.fileScope, Script.ownNames] at nameless
    rw [source]
    simp only [nonempty, Bool.false_eq_true, if_false]
    rw [sources, last]

end Table

namespace Script

/-- Whether the script binds the user function. -/
def binds (script : Script) (hash : UInt32) : Bool :=
  script.program.globals.any fun g => g.kind == .function hash

/-- A script binds the user functions that are among its variables. -/
theorem binds_iff {script : Script} {vars : List Variable}
    (globals : script.program.globals.toList = vars.map fun v => v.declaration.global)
    {hash : UInt32} : script.binds hash = true ↔ .function hash ∈ vars := by
  rw [binds, ← Array.any_toList, globals, List.any_map, List.any_eq_true]
  constructor
  · rintro ⟨v, member, same⟩
    cases v with
    | counter | result => cases same
    | function other =>
      simp only [Function.comp, Variable.declaration, Variable.kind, beq_iff_eq,
        GlobalKind.function.injEq] at same
      exact same ▸ member
  · exact fun member => ⟨_, member, beq_self_eq_true _⟩

theorem nodup_ownNames (script : Script) : script.ownNames.Nodup := by
  unfold ownNames
  split <;> simp

namespace Declares

variable {script : Script} {name : String}

/-- A script binds a user function under one name, once. -/
theorem count_references (declares : script.Declares) (hash : UInt32) :
    script.references.count ("fn_" ++ hex32 hash) = if script.binds hash then 1 else 0 := by
  obtain ⟨vars, distinct, globals⟩ := declares.globals
  have references : script.references =
      (vars.filter fun v => !v.kind.isInstanceScoped).map Variable.name := by
    rw [Script.references, globals, List.filter_map, List.map_map]
    rfl
  change script.references.count (Variable.function hash).name = _
  rw [references, List.count_map_of_injective _ _ fun _ _ => Variable.name_injective,
    List.count_filter (by rfl), distinct.count]
  simp only [binds_iff globals]

theorem mem_references (declares : script.Declares) (member : name ∈ script.references) :
    ∃ hash, name = "fn_" ++ hex32 hash := by
  obtain ⟨vars, distinct, globals⟩ := declares.globals
  rw [references, globals] at member
  obtain ⟨global, kept, rfl⟩ := List.mem_map.mp member
  obtain ⟨known, file⟩ := List.mem_filter.mp kept
  obtain ⟨v, -, rfl⟩ := List.mem_map.mp known
  cases v with
  | counter | result => cases file
  | function hash => exact ⟨hash, rfl⟩

/-- Names that carry an identifier begin with the name of the function. -/
theorem prefix_ownName (declares : script.Declares) (member : name ∈ script.ownNames) :
    (functionName script.uuid).toList <+: name.toList := by
  rw [ownNames, declares.function] at member
  rcases List.mem_append.mp member with member | member
  · split at member
    · rw [List.mem_singleton.mp member, String.toList_append]
      exact List.prefix_append _ _
    · cases member
  · obtain rfl := List.mem_singleton.mp member
    exact List.prefix_rfl

theorem ne_reference (declares : script.Declares) (member : name ∈ script.ownNames)
    (hash : UInt32) : name ≠ "fn_" ++ hex32 hash := by
  rintro rfl
  obtain ⟨rest, letters⟩ := declares.prefix_ownName member
  simp [functionName] at letters

theorem notMem_lookupNames (declares : script.Declares) (member : name ∈ script.ownNames) :
    name ∉ Table.lookupNames := by
  obtain ⟨rest, letters⟩ := declares.prefix_ownName member
  have first : name.toList.head? = some 'g' := by
    rw [← letters]
    simp [functionName]
  have others : ∀ name ∈ Table.lookupNames, name.toList.head? ≠ some 'g' := by decide
  exact fun known => others name known first

/-- The names of scripts with different identifiers are different. -/
theorem disjoint_ownNames {other : Script} (declares : script.Declares) (declares' : other.Declares)
    (different : script.uuid ≠ other.uuid) : script.ownNames.Disjoint other.ownNames := by
  intro name member member'
  have length (uuid : Uuid) : (functionName uuid).toList.length = 22 := by
    simp [functionName, hex64]
  have nested := List.prefix_of_prefix_length_le (declares.prefix_ownName member)
    (declares'.prefix_ownName member') (Nat.le_of_eq (by rw [length, length]))
  have same := nested.eq_of_length (by rw [length, length])
  simp only [functionName, String.toList_append] at same
  exact different (hex64_injective (String.toList_inj.mp (List.append_cancel_left same)))

end Declares

end Script

namespace Table

variable {t : Table} {scripts : List Script}

theorem count_references (declare : ∀ script ∈ scripts, script.Declares) (hash : UInt32) :
    (scripts.flatMap Script.references).count ("fn_" ++ hex32 hash) =
      scripts.countP (·.binds hash) := by
  induction scripts with
  | nil => rfl
  | cons script scripts ih =>
    obtain ⟨first, others⟩ := List.forall_mem_cons.mp declare
    rw [List.flatMap_cons, List.count_append, first.count_references, ih others, List.countP_cons,
      Nat.add_comm]

/-- The names that carry identifiers, and those of the look-up part, are all different. -/
theorem nodup_ownNames (declare : ∀ script ∈ scripts, script.Declares)
    (distinct : (scripts.map (·.uuid)).Nodup) :
    (scripts.flatMap Script.ownNames ++ lookupNames).Nodup := by
  refine List.nodup_append'.mpr ⟨List.nodup_flatMap.mpr ⟨fun script _ => script.nodup_ownNames, ?_⟩,
    by decide, ?_⟩
  · exact (List.pairwise_map.mp distinct).imp_of_mem fun {script other} member member' different =>
      (declare script member).disjoint_ownNames (declare other member') different
  · intro name member
    obtain ⟨script, inside, member⟩ := List.mem_flatMap.mp member
    exact (declare script inside).notMem_lookupNames member

/-- None of them is the name of a user function. -/
theorem ne_reference (declare : ∀ script ∈ scripts, script.Declares) {name : String}
    (member : name ∈ scripts.flatMap Script.ownNames ++ lookupNames) (hash : UInt32) :
    name ≠ "fn_" ++ hex32 hash := by
  rcases List.mem_append.mp member with member | member
  · obtain ⟨script, inside, member⟩ := List.mem_flatMap.mp member
    exact (declare script inside).ne_reference member hash
  · have first : ∀ name ∈ lookupNames, name.toList.head? ≠ some 'f' := by decide
    rintro rfl
    exact first _ member (by simp)

/-- The definitions of a table, user functions apart. -/
theorem count_definitions (declare : ∀ script ∈ t.scripts, script.Declares) (name : String) :
    (definitions t.source).count name = (t.scripts.flatMap Script.references).count name +
      (t.scripts.flatMap Script.ownNames ++ lookupNames).count name := by
  have apart := (List.flatMap_append_perm t.scripts Script.references Script.ownNames).count_eq name
  rw [List.count_append] at apart
  rw [definitions_source declare, List.count_append, List.count_append, ← Nat.add_assoc, apart]
  rfl

theorem count_definitions_reference (declare : ∀ script ∈ t.scripts, script.Declares)
    (hash : UInt32) :
    (definitions t.source).count ("fn_" ++ hex32 hash) = t.scripts.countP (·.binds hash) := by
  have absent : "fn_" ++ hex32 hash ∉ t.scripts.flatMap Script.ownNames ++ lookupNames :=
    fun member => ne_reference declare member hash rfl
  rw [count_definitions declare, count_references declare, List.count_eq_zero.mpr absent,
    Nat.add_zero]

theorem count_definitions_other (declare : ∀ script ∈ t.scripts, script.Declares) {name : String}
    (other : ∀ hash, name ≠ "fn_" ++ hex32 hash) :
    (definitions t.source).count name =
      (t.scripts.flatMap Script.ownNames ++ lookupNames).count name := by
  have absent : name ∉ t.scripts.flatMap Script.references := by
    intro member
    obtain ⟨script, inside, member⟩ := List.mem_flatMap.mp member
    obtain ⟨hash, same⟩ := (declare script inside).mem_references member
    exact other hash same
  rw [count_definitions declare, List.count_eq_zero.mpr absent, Nat.zero_add]

end Table

/-- The texts of an asset that comments in source repeat have no line breaks. -/
def GraphAsset.Plain (asset : GraphAsset) : Prop :=
  OneLine asset.name ∧
    ∀ g, Graph.ofJson asset.json = .ok g → ∀ node ∈ g.nodes, OneLine node.kind.title

theorem GraphAsset.Plain.declares {asset : GraphAsset} (plain : asset.Plain)
    {functions : Option Registry} {script : Script}
    (built : asset.script? functions = some script) : script.Declares := by
  obtain ⟨g, read, formed, compiled⟩ := GraphAsset.script?_eq_some built
  exact Job.declares_of_compile formed compiled plain.1 (plain.2 g read)

/-- How often the source of a project defines file-scope names. The reference to a user function is
defined once by every script that binds it, functions and state structures once at all; so nothing
is defined twice exactly if no two scripts bind one user function. -/
theorem Table.definitions_of_project (functions : Option Registry) {assets : List GraphAsset}
    (distinct : (assets.map (·.uuid)).Nodup) (plain : ∀ asset ∈ assets, asset.Plain) :
    let t := (buildProject assets functions).value.table
    (∀ hash, (definitions t.source).count ("fn_" ++ hex32 hash) = t.scripts.countP (·.binds hash)) ∧
      (∀ script ∈ t.scripts, ∀ name ∈ script.ownNames, (definitions t.source).count name = 1) ∧
      ((definitions t.source).Nodup ↔ ∀ hash, t.scripts.countP (·.binds hash) ≤ 1) := by
  intro t
  have declare : ∀ script ∈ t.scripts, script.Declares := by
    intro script member
    obtain ⟨asset, given, built⟩ :=
      List.mem_filterMap.mp ((buildProject_perm functions distinct).subset member)
    exact (plain asset given).declares built
  have others := nodup_ownNames declare (nodup_buildProject functions distinct)
  refine ⟨count_definitions_reference declare, fun script inside name member => ?_, ?_⟩
  · have known := List.mem_append_left lookupNames (List.mem_flatMap.mpr ⟨script, inside, member⟩)
    rw [count_definitions_other declare (ne_reference declare known)]
    exact List.count_eq_one_of_mem others known
  · rw [List.nodup_iff_count_le_one]
    constructor
    · intro single hash
      rw [← count_definitions_reference declare]
      exact single _
    · intro alone name
      by_cases known : ∃ hash, name = "fn_" ++ hex32 hash
      · obtain ⟨hash, rfl⟩ := known
        rw [count_definitions_reference declare]
        exact alone hash
      · rw [count_definitions_other declare fun hash same => known ⟨hash, same⟩]
        exact List.nodup_iff_count_le_one.mp others name

/-- A graph that does nothing but to call a user function. -/
def Graph.calling : Graph where
  nodes := [⟨1, .start, .origin⟩, ⟨2, .function "tick" 3, .origin⟩]
  links := [⟨1, 0, 2, 0⟩]

theorem Graph.ofJson_calling : Graph.ofJson Graph.calling.toJson = .ok Graph.calling := by
  have accepted : Graph.ofParts Graph.calling.nodes Graph.calling.links = .ok Graph.calling := by
    decide +kernel
  exact Graph.ofJson_written ((Graph.ofParts_eq_ok_iff _ _ _).mp accepted).2 (by decide +kernel)
    (by decide +kernel)

/-- Two assets that call one user function. -/
def GraphAsset.sharing : List GraphAsset :=
  [⟨0x10, "first", Graph.calling.toJson⟩, ⟨0x11, "second", Graph.calling.toJson⟩]

namespace GraphAsset

theorem nodup_sharing : (sharing.map (·.uuid)).Nodup := by
  change [(0x10 : Uuid), 0x11].Nodup
  decide

theorem plain_sharing : ∀ asset ∈ sharing, asset.Plain := by
  have titled : ∀ g, Graph.ofJson Graph.calling.toJson = .ok g →
      ∀ node ∈ g.nodes, OneLine node.kind.title := by
    intro g read
    rw [Graph.ofJson_calling] at read
    cases read
    decide +kernel
  exact List.forall_mem_cons.mpr ⟨⟨by decide, titled⟩,
    List.forall_mem_singleton.mpr ⟨by decide, titled⟩⟩

theorem script?_calling {uuid : Uuid} {name : String} {script : Script}
    (made : (Job.compile ⟨Graph.calling, name, none⟩ uuid).value.toOption = some script) :
    script? none ⟨uuid, name, Graph.calling.toJson⟩ = some script := by
  have read : Graph.ofJson (mk uuid name Graph.calling.toJson).json = .ok Graph.calling :=
    Graph.ofJson_calling
  rw [script?, build_eq read]
  exact made

theorem countP_sharing :
    (buildProject sharing none).value.table.scripts.countP (·.binds (crc32 "tick")) = 2 := by
  have first : (Job.compile ⟨Graph.calling, "first", none⟩ 0x10).value.toOption.map
      (·.binds (crc32 "tick")) = some true := by decide +kernel
  have second : (Job.compile ⟨Graph.calling, "second", none⟩ 0x11).value.toOption.map
      (·.binds (crc32 "tick")) = some true := by decide +kernel
  obtain ⟨script, made, bound⟩ := Option.map_eq_some_iff.mp first
  obtain ⟨script', made', bound'⟩ := Option.map_eq_some_iff.mp second
  rw [(buildProject_perm none nodup_sharing).countP_eq, sharing,
    List.filterMap_cons_some (script?_calling made),
    List.filterMap_cons_some (script?_calling made')]
  simp [bound, bound']

end GraphAsset

open GraphAsset (sharing) in
/-- Both assets declare the user function. -/
theorem Table.definitions_of_project_sharing :
    (sharing.map (·.uuid)).Nodup ∧ (∀ asset ∈ sharing, asset.Plain) ∧
      (definitions (buildProject sharing none).value.table.source).count
          ("fn_" ++ hex32 (crc32 "tick")) = 2 ∧
      ¬ (definitions (buildProject sharing none).value.table.source).Nodup := by
  have spec := Table.definitions_of_project none GraphAsset.nodup_sharing GraphAsset.plain_sharing
  refine ⟨GraphAsset.nodup_sharing, GraphAsset.plain_sharing,
    (spec.1 _).trans GraphAsset.countP_sharing, fun single => ?_⟩
  have one := spec.2.2.mp single (crc32 "tick")
  rw [GraphAsset.countP_sharing] at one
  exact absurd one (by decide)

end NodeScript
