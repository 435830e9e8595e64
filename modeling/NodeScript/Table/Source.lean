import NodeScript.Table.Basic
import NodeScript.Text.Hex

/-!
Source text of a whole table: the sources of all scripts, then the arrays and the look-up function
that tie them together. Empty arrays are given one zero, since an array needs an element.
-/
namespace NodeScript.Table

/-- An array of words with its initial values. -/
def arrayLine (name : String) (values : List String) : String :=
  "const uint16_t " ++ name ++ "[" ++ toString (max values.length 1) ++ "] = \x7b "
    ++ (if values.isEmpty then "0" else ", ".intercalate values) ++ " \x7d;"

/-- The size of the state structure of a script. -/
def stateSize (script : Script) : String :=
  if script.hasInstanceState then "sizeof(" ++ script.function ++ "_state)" else "0"

def lookupLines (t : Table) : List String :=
  ["#define SCRIPT_COUNT " ++ toString t.size, "",
    arrayLine "SCRIPT_STACK_SIZE" (t.scripts.map fun script => toString script.stackSize.toNat), "",
    arrayLine "SCRIPT_STATE_SIZE" (t.scripts.map stateSize), "",
    "ScriptFn script_by_uuid(uint64_t uuid) \x7b", "  switch (uuid) \x7b"]
    ++ (t.scripts.map fun script =>
      "    case 0x" ++ hex64 script.uuid ++ "ULL: return " ++ script.function ++ ";")
    ++ ["    default: return script_dummy;", "  \x7d", "\x7d"]

/-- The look-up part alone. -/
def lookupSource (t : Table) : String := String.join (t.lookupLines.map (· ++ "\n"))

/-- The sources of all scripts with an empty line after each, then the look-up part. -/
def source (t : Table) : String :=
  let scripts := "\n".intercalate (t.scripts.map (·.source))
  (if scripts.isEmpty then scripts else scripts ++ "\n") ++ t.lookupSource

end NodeScript.Table
