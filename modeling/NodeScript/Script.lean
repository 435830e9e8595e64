import NodeScript.Program

/-!
Compiled scripts: a program with the source text that says the same, under the identifier of the
graph asset it was built from.
-/
namespace NodeScript

/-- The build output for one graph asset. -/
structure Script where
  uuid : UInt64
  name : String
  /-- The name of the generated function. -/
  function : String
  program : Program
  /-- Stack slots needed, before any safety factor. -/
  stackSize : UInt16
  source : String
  deriving DecidableEq, Repr

namespace Script

/-- What stands for a script that does not exist. It has no entries and so never does anything. -/
def dummy : Script := ⟨0, "<dummy>", "script_dummy", .empty, 0, ""⟩

/-- Whether every instance has variables of its own. -/
def hasInstanceState (script : Script) : Bool :=
  script.program.globals.any fun global => global.kind.isInstanceScoped

def isDummy (script : Script) : Bool := script.uuid == 0 && script.program.code.isEmpty

end Script

end NodeScript
