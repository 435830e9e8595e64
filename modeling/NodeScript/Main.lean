import NodeScript.CommandLine
import NodeScript.Packed.Writer
import NodeScript.Project.Manifest

/-!
The command line program: reads files, calls the library and prints what it gives. Reported events
and errors go to standard error.
-/
namespace NodeScript.CommandLine

def printAll (lines : List String) : IO Unit := lines.forM fun line => IO.println line

def reportAll (events : List Event) : IO Unit :=
  (eventLines events).forM fun line => IO.eprintln line

/-- Stops with a message. -/
def stop {α : Type} (message : String) : IO α := throw (IO.userError message)

/-- The value of a result, or a stop with its cause. -/
def orStop {ε α : Type} (context : String) (message : ε → String) : Except ε α → IO α
  | .ok value => pure value
  | .error cause => stop (context ++ message cause)

def readText (path : String) : IO String := IO.FS.readFile path

def readBytes (path : String) : IO (List UInt8) := do
  let bytes ← IO.FS.readBinFile path
  pure bytes.toList

def writeBytes (path : String) (bytes : List UInt8) : IO Unit :=
  IO.FS.writeBinFile path bytes.toByteArray

def readTable (path : String) : IO Table := do
  orStop "Failed to load script table: " ArtifactError.message (Table.ofBytes (← readBytes path))

def buildAction (manifest output : String) (source : Option String) : IO UInt32 := do
  let listed ←
    orStop "Failed to load manifest: " ArtifactError.message
      (Manifest.ofJson (← readText manifest))
  let base := FilePath.parent manifest
  let assets ← listed.graphs.mapM fun entry => do
    let json ← readText (FilePath.join base entry.path)
    pure (⟨entry.uuid, entry.name, json⟩ : GraphAsset)
  let result := buildProject assets none
  reportAll result.events
  writeBytes output result.value.table.toBytes
  match source with
  | some path => IO.FS.writeFile path result.value.table.source
  | none => pure ()
  IO.println ("Built " ++ toString result.value.table.size ++ " of " ++ toString assets.length
    ++ " graphs -> " ++ output)
  result.value.errors.forM fun error => IO.eprintln ("  error: " ++ error.message)
  pure (if result.value.isOk then 0 else 1)

def runAction (table : String) (asset : UInt16) (ticks : Nat) (frame : Binary32)
    (config : Option String) : IO UInt32 := do
  let table ← readTable table
  let config ← match config with
    | none => pure Config.standard
    | some path =>
      match Config.ofJson? (← readText path) with
      | some config => pure config
      | none => stop "Invalid config"
  let (lines, journal) := runLines ⟨table, .empty, config⟩ asset ticks frame
  reportAll (journal.entries.toList.filterMap fun entry =>
    match entry with
    | .event event => some event
    | _ => none)
  printAll lines
  pure 0

def packAction (graph output : String) (uuid : Uuid) : IO UInt32 := do
  let parsed ←
    orStop "Failed to parse graph: " GraphError.message (Graph.ofJson (← readText graph))
  let compiled := Job.compile ⟨parsed, graph, none⟩ uuid
  reportAll compiled.events
  let script ← orStop "Compilation failed: " CompileError.message compiled.value
  let packed := Packed.packLogged parsed script
  reportAll packed.events
  let bytes ← orStop "Packing failed: " CompileError.message packed.value
  writeBytes output bytes
  IO.println ("Packed " ++ toString bytes.length ++ " bytes -> " ++ output)
  pure 0

def perform : Action → IO UInt32
  | .build manifest output source => buildAction manifest output source
  | .run table asset ticks frame config => runAction table asset ticks frame config
  | .dump table => do
    printAll (dumpLines (← readTable table))
    pure 0
  | .pack graph output uuid => packAction graph output uuid
  | .unpack blob => do
    let read ← orStop "Decoding failed: " DecodeError.message (Packed.unpack (← readBytes blob))
    printAll (blobLines read)
    pure 0

end NodeScript.CommandLine

/-- Runs the action that the arguments ask for. The exit code is not zero where it fails. -/
def main (arguments : List String) : IO UInt32 := do
  try
    match NodeScript.CommandLine.parse arguments with
    | .ok action => NodeScript.CommandLine.perform action
    | .error message => do
      IO.eprintln ("Error: " ++ message)
      pure 2
  catch failure =>
    IO.eprintln ("\nError: " ++ toString failure)
    pure 1
