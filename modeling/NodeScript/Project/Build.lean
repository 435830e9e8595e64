import NodeScript.Compile.Unit
import NodeScript.Graph.Document
import NodeScript.Table.Basic

/-!
Project builds: every graph asset is compiled on its own into one table. An asset that cannot be
built is reported and left out, and the others are built all the same.
-/
namespace NodeScript

structure GraphAsset where
  uuid : Uuid
  name : String
  /-- The graph document. -/
  json : String
  deriving DecidableEq, Repr

structure ProjectBuild where
  table : Table
  /-- The causes for the assets that are missing from the table, in the order of the assets. -/
  errors : List CompileError
  deriving DecidableEq, Repr

/-- Reads and compiles one asset. -/
def GraphAsset.build (asset : GraphAsset) (functions : Option Registry) :
    Logged (Except CompileError Script) :=
  match Graph.ofJson asset.json with
  | .error cause => ⟨.error (.graph asset.name cause), []⟩
  | .ok graph => Job.compile ⟨graph, asset.name, functions⟩ asset.uuid

namespace ProjectBuild

def empty : ProjectBuild := ⟨.empty, []⟩

def isOk (b : ProjectBuild) : Bool := b.errors.isEmpty

/-- Adds the result for one asset. -/
def add (b : ProjectBuild) : Except CompileError Script → ProjectBuild
  | .ok script => ⟨b.table.add script, b.errors⟩
  | .error error => ⟨b.table, b.errors ++ [error]⟩

/-- What is reported after an asset has been tried. -/
def closing (asset : GraphAsset) : Except CompileError Script → List Event
  | .ok _ => []
  | .error error => [.buildFailed asset.name error]

/-- Builds the assets in turn. -/
def run (functions : Option Registry) : List GraphAsset → ProjectBuild → Logged ProjectBuild
  | [], b => ⟨b, [.buildFinished b.table.size b.errors.length]⟩
  | asset :: rest, b =>
    let result := asset.build functions
    let others := run functions rest (b.add result.value)
    ⟨others.value, result.events ++ closing asset result.value ++ others.events⟩

end ProjectBuild

/-- Builds all assets of a project into one table. -/
def buildProject (assets : List GraphAsset) (functions : Option Registry) : Logged ProjectBuild :=
  ProjectBuild.run functions assets .empty

end NodeScript
