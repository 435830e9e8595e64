import NodeScript.Graph.Document
import NodeScript.Packed.Reader
import NodeScript.SortedMap
import NodeScript.Diagnostic

/-!
Script components: what an object carries to run a graph asset, as edited and as packed for the
scene. A component is built against the indices of a script table.
-/
namespace NodeScript

structure Component where
  /-- The graph asset to run. -/
  asset : Uuid
  /-- Whether the script starts as soon as the object spawns. -/
  autoRun : Bool
  /-- Whether the script may start again once it has finished. -/
  repeatable : Bool
  deriving DecidableEq, Repr

/-- A component as the scene loads it. -/
structure ComponentRecord where
  assetIndex : UInt16
  autoRun : Bool
  repeatable : Bool
  deriving DecidableEq, Repr

/-- The index that stands for an asset that is not part of the build. -/
def missingAssetIndex : UInt16 := 0xDEAD

namespace Component

open Json (Tree)

/-- Reads a field that may be missing. -/
def field? {α : Type} (tree : Option Tree) (default : α) (read : Tree → Option α) : Option α :=
  match tree with
  | none => some default
  | some tree => read tree

def ofTree? (tree : Tree) : Option Component := do
  match ← tree.record? ["asset", "autoRun", "repeatable"] with
  | [asset, autoRun, repeatable] =>
    let asset ← field? asset 0 (Tree.natBelow? UInt64.size)
    let autoRun ← field? autoRun true Tree.bool?
    let repeatable ← field? repeatable false Tree.bool?
    pure ⟨asset.toUInt64, autoRun, repeatable⟩
  | _ => none

def ofJson (text : String) : Except GraphError Component :=
  match (Tree.parse? text).bind ofTree? with
  | some component => .ok component
  | none => .error .malformed

def toJson (c : Component) : String :=
  (Json.object [("asset", .int c.asset.toNat), ("autoRun", .bool c.autoRun),
    ("repeatable", .bool c.repeatable)]).compact

/-- Resolves the asset. An unknown one is reported and gets the missing index, so that the rest of
a scene can still be built. -/
def build (c : Component) (indices : SortedMap UInt64 UInt16) : Logged ComponentRecord :=
  match indices.find? c.asset with
  | some index => ⟨⟨index, c.autoRun, c.repeatable⟩, []⟩
  | none =>
    ⟨⟨missingAssetIndex, c.autoRun, c.repeatable⟩, [.componentAssetMissing c.asset]⟩

end Component

namespace ComponentRecord

def isResolved (r : ComponentRecord) : Bool := r.assetIndex != missingAssetIndex

/-- The index, most significant byte first, and a byte for each flag. -/
def toBytes (r : ComponentRecord) : List UInt8 :=
  bigEndian 2 r.assetIndex.toNat ++ [r.autoRun.toUInt8, r.repeatable.toUInt8]

/-- Reads a record. Any byte but zero sets a flag, and bytes after the record are ignored. -/
def ofBytes : List UInt8 → Except DecodeError ComponentRecord
  | high :: low :: autoRun :: repeatable :: _ =>
    .ok ⟨(ofBigEndian [high, low]).toUInt16, autoRun != 0, repeatable != 0⟩
  | bytes => .error (.truncated bytes.length "script component")

end ComponentRecord

end NodeScript
