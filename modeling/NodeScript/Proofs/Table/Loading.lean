import NodeScript.Proofs.Table.Lookup
import NodeScript.Table.Codec

/-!
Loaded tables. Scripts are taken in the order in which the bytes list them, and the look-ups of a
table rely on its order: they find every script exactly if identifiers ascend.
-/
namespace NodeScript.Table

variable {t : Table}

/-- Every script is found, at its index and by its identifier, and gives way to one that is added
under the same identifier. -/
structure Faithful (t : Table) : Prop where
  indexed : ∀ index script, t.get? index = some script → t.indexOf? script.uuid = some index
  found : ∀ index script, t.get? index = some script → t.getByUuid? script.uuid = some script
  replaced : ∀ index script, t.get? index = some script →
    ∀ other : Script, other.uuid = script.uuid → t.add other = ⟨t.scripts.set index other⟩

theorem Ascending.faithful (ascending : t.Ascending) : t.Faithful where
  indexed _ script at_index := ascending.indexOf?_eq_some_iff.mpr ⟨script, at_index, rfl⟩
  found _ _ at_index := ascending.getByUuid?_eq_some_iff.mpr ⟨List.mem_of_getElem? at_index, rfl⟩
  replaced index script at_index other same := by
    rw [add, same, ascending.locate_found at_index]

/-- A loaded table has the scripts of its bytes in the order in which they stand there. Nothing but
ascending identifiers makes its look-ups right. -/
theorem ofBytes?_faithful_iff {bytes : List UInt8} (loaded : ofBytes? bytes = some t) :
    (∃ rest, Decoder.list Decoder.script bytes = some (t.scripts, rest)) ∧
      (t.Faithful ↔ t.scripts.Pairwise fun a b => a.uuid < b.uuid) := by
  constructor
  · obtain ⟨⟨scripts, rest⟩, read, rfl⟩ := Option.map_eq_some_iff.mp loaded
    exact ⟨rest, read⟩
  · exact ⟨fun faithful => ascending_of_indexOf? faithful.indexed, Ascending.faithful⟩

/-- Two scripts in the order that no sequence of additions gives them. -/
def swapped : Table := ⟨[{ Script.dummy with uuid := 2 }, { Script.dummy with uuid := 1 }]⟩

/-- The bytes are accepted, but the second script is added beside the one it should replace. -/
theorem ofBytes?_faithful_iff_swapped :
    ofBytes? swapped.toBytes = some swapped ∧ ¬ swapped.Faithful ∧
      swapped.indexOf? 2 = none ∧ (swapped.add { Script.dummy with uuid := 2 }).size = 3 := by
  have loaded : ofBytes? swapped.toBytes = some swapped := by decide +kernel
  refine ⟨loaded, fun faithful => ?_, by decide, by decide⟩
  have ordered := (ofBytes?_faithful_iff loaded).2.mp faithful
  revert ordered
  decide

end NodeScript.Table
