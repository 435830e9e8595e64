import NodeScript.Script
import NodeScript.SortedMap

/-!
Script tables: the compiled scripts of a project, found by asset identifier or by index. Scripts
are kept in ascending order of their identifiers, so the index of a script depends only on which
assets there are. Look-ups halve the list; on a table that was loaded in another order they find
what the halving meets.
-/
namespace NodeScript

structure Table where
  scripts : List Script
  deriving DecidableEq, Repr

namespace Table

def empty : Table := ⟨[]⟩

def size (t : Table) : Nat := t.scripts.length

/-- The last position of `size` ones from `base` on that can hold the identifier: positions whose
script is above it are left out, half of the range at a time. -/
def narrow (scripts : List Script) (uuid : UInt64) :
    (rounds : Nat) → (size : Nat) → (base : Nat) → Nat
  | 0, _, base => base
  | rounds + 1, size, base =>
    if size ≤ 1 then base
    else
      let half := size / 2
      match scripts[base + half]? with
      | none => base
      | some script =>
        narrow scripts uuid rounds (size - half) (if uuid < script.uuid then base else base + half)

/-- The position of an identifier if it is found, and otherwise the position to insert it at. -/
def locate (t : Table) (uuid : UInt64) : Nat × Bool :=
  let base := narrow t.scripts uuid t.size t.size 0
  match t.scripts[base]? with
  | none => (0, false)
  | some script =>
    if script.uuid = uuid then (base, true)
    else if script.uuid < uuid then (base + 1, false)
    else (base, false)

/-- Adds a script in place of the one with its identifier, if there is one. -/
def add (t : Table) (script : Script) : Table :=
  match t.locate script.uuid with
  | (position, true) => ⟨t.scripts.set position script⟩
  | (position, false) => ⟨t.scripts.insertIdx position script⟩

def indexOf? (t : Table) (uuid : UInt64) : Option Nat :=
  match t.locate uuid with
  | (position, true) => some position
  | (_, false) => none

def get? (t : Table) (index : Nat) : Option Script := t.scripts[index]?

def getByUuid? (t : Table) (uuid : UInt64) : Option Script := (t.indexOf? uuid).bind t.get?

/-- The script at an index, or the dummy. -/
def scriptAt (t : Table) (index : Nat) : Script := (t.get? index).getD .dummy

/-- The script of an asset, or the dummy. -/
def scriptOf (t : Table) (uuid : UInt64) : Script := (t.getByUuid? uuid).getD .dummy

/-- Asset identifiers with their indices, as far as these fit sixteen bits. Of two scripts with
one identifier the later counts. -/
def assetIndices (t : Table) : SortedMap UInt64 UInt16 :=
  .ofEntries ((t.scripts.zipIdx.filter fun (_, index) => index < UInt16.size).map
    fun (script, index) => (script.uuid, index.toUInt16))

end Table

end NodeScript
