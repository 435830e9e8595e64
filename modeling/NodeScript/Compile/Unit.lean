import NodeScript.Compile.Lowering
import NodeScript.Script

/-!
Compilation of a graph into a script: layout, lowering and the source of the unit.
-/
namespace NodeScript

/-- Stack slots that every unit needs besides those of its largest node. -/
def baseStackSlots : Nat := 4

def functionName (uuid : Uuid) : String := "graph_" ++ hex64 uuid

namespace Assembly

/-- The lines of a finished unit. The state structure is declared where there is state to hold. -/
def sourceLines (a : Assembly) (uuid : Uuid) (name : String) (entries : Entries) : List String :=
  let function := functionName uuid
  let state := a.stateLines
  let stateType :=
    if state.isEmpty then []
    else ["typedef struct \x7b"] ++ state.map ("  " ++ ·) ++ ["\x7d " ++ function ++ "_state;", ""]
  let statePointer :=
    if state.isEmpty then []
    else ["  " ++ function ++ "_state* state = (" ++ function ++ "_state*)inst->state;"]
  let cases := (Trigger.all.filter fun trigger => (entries.get trigger).isSome).map fun trigger =>
    "    case " ++ trigger.constant ++ ": goto " ++ trigger.label ++ ";"
  ["// '" ++ name ++ "' (" ++ hex64 uuid ++ ")"]
    ++ a.fileLines ++ (if a.fileLines.isEmpty then [] else [""])
    ++ stateType
    ++ ["void " ++ function ++ "(Instance* inst, Trigger trigger) \x7b"]
    ++ statePointer
    ++ ["  switch (trigger) \x7b"] ++ cases ++ ["    default: return;", "  \x7d"]
    ++ a.bodyLines ++ ["\x7d"]

def source (a : Assembly) (uuid : Uuid) (name : String) (entries : Entries) : String :=
  String.join ((a.sourceLines uuid name entries).map (· ++ "\n"))

/-- The script of a finished assembly. -/
def toScript (a : Assembly) (uuid : Uuid) (name : String) (entries : Entries) : Script :=
  let maxLocals := min a.maxLocals 65535
  { uuid, name
    function := functionName uuid
    program := ⟨a.code, entries, a.globals.map (·.global), maxLocals.toUInt16⟩
    stackSize := (min (baseStackSlots + maxLocals) 65535).toUInt16
    source := a.source uuid name entries }

end Assembly

/-- The assembly and the entries that a layout is lowered to. -/
def Job.draft (job : Job) (layout : List (Trigger × Chain)) : Draft × Entries :=
  Draft.lowerEntries job layout .empty .empty

/-- Compiles a graph under the identifier of its asset. -/
def Job.compile (job : Job) (uuid : Uuid) : Logged (Except CompileError Script) :=
  let opening := Event.compiling job.asset job.graph.nodes.length job.graph.links.length
  match Chain.ofGraph job.graph job.asset with
  | .error error => ⟨.error error, [opening]⟩
  | .ok layout =>
    let (draft, entries) := job.draft layout
    match draft.failure with
    | some (error, reported) => ⟨.error error, opening :: draft.events.toList.take reported⟩
    | none =>
      let script := draft.assembly.toScript uuid job.asset entries
      ⟨.ok script, opening :: draft.events.toList ++
        [.compiled job.asset script.program.code.size script.program.globals.size
          script.stackSize]⟩

end NodeScript
