import NodeScript.Project.Build
import NodeScript.Project.FileTree
import NodeScript.Table.Codec

/-!
Project manifests, which list the graph assets of a build, and the files that assets and tables
are kept in.
-/
namespace NodeScript

/-- Why a stored artifact cannot be had. -/
inductive ArtifactError
  | io (path : String)
  | decode
  deriving DecidableEq, Repr

def ArtifactError.message : ArtifactError → String
  | .io path => "Could not access '" ++ path ++ "'"
  | .decode => "Deserialization failed"

structure ManifestEntry where
  uuid : Uuid
  name : String
  /-- The place of the graph document, seen from the manifest. -/
  path : String
  deriving DecidableEq, Repr

structure Manifest where
  graphs : List ManifestEntry
  deriving DecidableEq, Repr

/-- Reads a file that has to be there. -/
def FileTree.read {α : Type} (files : FileTree α) (path : String) : Except ArtifactError α :=
  match files.read? path with
  | some content => .ok content
  | none => .error (.io path)

namespace Manifest

open Json (Tree)

def entryOfTree? (tree : Tree) : Option ManifestEntry := do
  match ← tree.record? ["uuid", "name", "path"] with
  | [some uuid, some name, some path] =>
    let uuid ← uuid.natBelow? UInt64.size
    let name ← name.string?
    let path ← path.string?
    pure ⟨uuid.toUInt64, name, path⟩
  | _ => none

def ofTree? (tree : Tree) : Option Manifest := do
  match ← tree.record? ["graphs"] with
  | [none] => pure ⟨[]⟩
  | [some graphs] =>
    let entries ← (← graphs.array?).mapM entryOfTree?
    pure ⟨entries⟩
  | _ => none

def ofJson (text : String) : Except ArtifactError Manifest :=
  match (Tree.parse? text).bind ofTree? with
  | some manifest => .ok manifest
  | none => .error .decode

/-- Reads the manifest at a path. -/
def ofFile (files : FileTree String) (path : String) : Except ArtifactError Manifest :=
  (files.read path).bind ofJson

/-- Reads all listed documents, whose paths are seen from `base`. The first one that is missing is
the error. -/
def loadAssets (m : Manifest) (files : FileTree String) (base : String) :
    Except ArtifactError (List GraphAsset) :=
  m.graphs.mapM fun entry => do
    let json ← files.read (FilePath.join base entry.path)
    pure ⟨entry.uuid, entry.name, json⟩

end Manifest

namespace Table

/-- Writes a table to a file. -/
def save (t : Table) (files : FileTree (List UInt8)) (path : String) :
    Except ArtifactError (FileTree (List UInt8)) :=
  match files.write? path t.toBytes with
  | some files => .ok files
  | none => .error (.io path)

/-- Reads a table from its bytes. -/
def ofBytes (bytes : List UInt8) : Except ArtifactError Table :=
  match ofBytes? bytes with
  | some table => .ok table
  | none => .error .decode

/-- Reads a table from a file. -/
def ofFile (files : FileTree (List UInt8)) (path : String) : Except ArtifactError Table :=
  (files.read path).bind ofBytes

end Table

end NodeScript
