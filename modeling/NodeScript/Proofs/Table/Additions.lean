import Mathlib.Data.Finset.Card
import NodeScript.Proofs.Table.Lookup

/-!
Tables that are made by adding scripts. Adding a script changes what is found under its identifier
and nothing else, so such a table is a map: an identifier has the script that was added last under
it. The order of the identifiers makes the map its own index.
-/
namespace NodeScript.Table

variable {t : Table} {script : Script} {uuid : UInt64}

/-- The scripts of a table are those that are found under their identifiers. -/
theorem Ascending.mem_scripts (ascending : t.Ascending) :
    script ∈ t.scripts ↔ t.getByUuid? script.uuid = some script := by
  rw [ascending.getByUuid?_eq_some_iff]
  exact (and_iff_left rfl).symm

theorem Ascending.getByUuid?_add (ascending : t.Ascending) (script : Script) (uuid : UInt64) :
    (t.add script).getByUuid? uuid =
      if script.uuid = uuid then some script else t.getByUuid? uuid := by
  refine Option.ext fun found => ?_
  rw [(ascending.add script).getByUuid?_eq_some_iff, ascending.mem_add]
  split
  next same =>
    rw [Option.some.injEq]
    constructor
    · rintro ⟨rfl | ⟨-, differs⟩, here⟩
      · rfl
      · exact absurd (here.trans same.symm) differs
    · rintro rfl
      exact ⟨.inl rfl, same⟩
  next differs =>
    rw [ascending.getByUuid?_eq_some_iff]
    constructor
    · rintro ⟨rfl | ⟨member, -⟩, here⟩
      · exact absurd here differs
      · exact ⟨member, here⟩
    · rintro ⟨member, here⟩
      exact ⟨.inr ⟨member, fun same => differs (same.symm.trans here)⟩, here⟩

/-- The script that was added last under an identifier. -/
def lastUnder? (scripts : List Script) (uuid : UInt64) : Option Script :=
  (scripts.filter (·.uuid = uuid)).getLast?

theorem lastUnder?_cons (script : Script) (rest : List Script) (uuid : UInt64) :
    lastUnder? (script :: rest) uuid =
      (lastUnder? rest uuid).or (if script.uuid = uuid then some script else none) := by
  by_cases same : script.uuid = uuid
  · rw [lastUnder?, List.filter_cons_of_pos (by simpa using same), List.getLast?_cons, if_pos same]
    cases last : lastUnder? rest uuid <;> rw [lastUnder?] at last <;> simp [last]
  · rw [lastUnder?, List.filter_cons_of_neg (by simpa using same), if_neg same, Option.or_none]
    rfl

theorem isSome_lastUnder? {scripts : List Script} :
    (lastUnder? scripts uuid).isSome ↔ uuid ∈ scripts.map (·.uuid) := by
  simp [lastUnder?]

/-- Of several scripts with one identifier the last counts, and one that was there before is only
found where none was added. -/
theorem getByUuid?_foldl_add (ascending : t.Ascending) (scripts : List Script) (uuid : UInt64) :
    (scripts.foldl add t).getByUuid? uuid = (lastUnder? scripts uuid).or (t.getByUuid? uuid) := by
  induction scripts generalizing t with
  | nil => rfl
  | cons script rest ih =>
    rw [List.foldl_cons, ih (ascending.add script), ascending.getByUuid?_add, lastUnder?_cons,
      Option.or_assoc]
    congr 1
    split <;> rfl

section Additions

variable (scripts : List Script)

theorem ascending_additions : (scripts.foldl add empty).Ascending :=
  ascending_foldl_add ascending_empty scripts

theorem getByUuid?_additions (uuid : UInt64) :
    (scripts.foldl add empty).getByUuid? uuid = lastUnder? scripts uuid := by
  rw [getByUuid?_foldl_add ascending_empty]
  exact Option.or_none

/-- There is one script for every identifier. -/
theorem size_additions :
    (scripts.foldl add empty).size = (scripts.map (·.uuid)).toFinset.card := by
  have ascending := ascending_additions scripts
  have same : ((scripts.foldl add empty).scripts.map (·.uuid)).toFinset =
      (scripts.map (·.uuid)).toFinset := by
    ext uuid
    rw [List.mem_toFinset, List.mem_toFinset, ← @isSome_lastUnder? _ scripts,
      ← getByUuid?_additions, Option.isSome_iff_exists, List.mem_map]
    simp only [ascending.getByUuid?_eq_some_iff]
  have distinct : ((scripts.foldl add empty).scripts.map (·.uuid)).Nodup := by
    refine List.pairwise_map.mpr (ascending.imp fun less => UInt64.ne_of_lt less)
  rw [← same, List.toFinset_card_of_nodup distinct, List.length_map, size]

/-- A table that is made by adding scripts is a sorted map. Its identifiers ascend, an identifier
has the script that was added last under it, and there are as many scripts as identifiers. Position,
index and identifier of a script lead to one another at every index, and the indices of assets are
all those that fit sixteen bits. -/
theorem additions_form_sorted_map (scripts : List Script) :
    let t : Table := scripts.foldl Table.add .empty
    t.scripts.Pairwise (fun a b => a.uuid < b.uuid) ∧
      (∀ uuid, t.getByUuid? uuid = (scripts.filter (·.uuid = uuid)).getLast?) ∧
      t.size = (scripts.map (·.uuid)).toFinset.card ∧
      (∀ index, (t.get? index).isSome ↔ index < t.size) ∧
      (∀ index script, t.get? index = some script ↔
        t.indexOf? script.uuid = some index ∧ t.getByUuid? script.uuid = some script) ∧
      (∀ uuid index, t.indexOf? uuid = some index →
        ∃ script, t.get? index = some script ∧ script.uuid = uuid) ∧
      ∀ uuid index, (t.assetIndices.find? uuid).map (·.toNat) = some index ↔
        t.indexOf? uuid = some index ∧ index ≤ 65535 := by
  intro t
  have ascending : t.Ascending := ascending_additions scripts
  refine ⟨ascending, getByUuid?_additions scripts, size_additions scripts, fun index => ?_,
    fun index script => ?_, fun uuid index found => (indexOf?_eq_some found).2,
    fun uuid index => ?_⟩
  · rw [get?, size, Option.isSome_iff_exists]
    simp [List.getElem?_eq_some_iff]
  · constructor
    · intro at_index
      exact ⟨ascending.indexOf?_eq_some_iff.mpr ⟨script, at_index, rfl⟩,
        ascending.mem_scripts.mp (List.mem_of_getElem? at_index)⟩
    · rintro ⟨found, known⟩
      rwa [getByUuid?, found, Option.bind_some] at known
  · simp only [Option.map_eq_some_iff, ascending.find?_assetIndices]
    constructor
    · rintro ⟨short, found, rfl⟩
      exact ⟨found, Nat.le_of_lt_succ short.toNat_lt⟩
    · rintro ⟨found, small⟩
      have kept : index.toUInt16.toNat = index :=
        UInt16.toNat_ofNat_of_lt' (Nat.lt_succ_of_le small)
      exact ⟨index.toUInt16, by rwa [kept], kept⟩

end Additions

end NodeScript.Table
