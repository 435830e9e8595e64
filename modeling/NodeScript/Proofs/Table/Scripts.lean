import Mathlib.Data.List.Nodup
import Mathlib.Data.List.InsertIdx
import NodeScript.Project.Build
import NodeScript.Proofs.Compile.Success
import NodeScript.Proofs.Graph.Edits

/-!
The scripts of a project that is built. Where assets have identifiers of their own, the table holds
one script for every asset that compiles, and nothing else.
-/
namespace NodeScript

namespace Table

/-- Where a script is found it has the identifier looked for; otherwise the place for a new one is
within the table or at its end. -/
theorem locate_cases (t : Table) (uuid : UInt64) :
    (∃ position script, t.locate uuid = (position, true) ∧ t.scripts[position]? = some script ∧
        script.uuid = uuid) ∨
      ∃ position ≤ t.scripts.length, t.locate uuid = (position, false) := by
  simp only [locate]
  generalize narrow t.scripts uuid t.size t.size 0 = base
  cases at_base : t.scripts[base]? with
  | none => exact .inr ⟨0, Nat.zero_le _, rfl⟩
  | some script =>
    have inside : base < t.scripts.length := (List.getElem?_eq_some_iff.mp at_base).1
    simp only
    split
    next same => exact .inl ⟨base, script, rfl, at_base, same⟩
    next =>
      split
      · exact .inr ⟨base + 1, inside, rfl⟩
      · exact .inr ⟨base, Nat.le_of_lt inside, rfl⟩

/-- A script with a new identifier is added to the others. -/
theorem add_perm {t : Table} {script : Script} (new : script.uuid ∉ t.scripts.map (·.uuid)) :
    (t.add script).scripts.Perm (script :: t.scripts) := by
  rcases t.locate_cases script.uuid with ⟨position, other, -, found, same⟩ | ⟨position, inside, place⟩
  · exact absurd (List.mem_map.mpr ⟨other, List.mem_of_getElem? found, same⟩) new
  · rw [add, place]
    exact List.perm_insertIdx script t.scripts inside

end Table

namespace GraphAsset

variable {functions : Option Registry} {asset : GraphAsset} {script : Script} {g : Graph}

/-- The script of an asset, if it can be built. -/
def script? (functions : Option Registry) (asset : GraphAsset) : Option Script :=
  (asset.build functions).value.toOption

/-- An asset whose document is read is compiled under its identifier and its name. -/
theorem build_eq (read : Graph.ofJson asset.json = .ok g) :
    asset.build functions = Job.compile ⟨g, asset.name, functions⟩ asset.uuid := by
  rw [build, read]

/-- The script of an asset is compiled from a well-formed graph. -/
theorem script?_eq_some (built : asset.script? functions = some script) :
    ∃ g, Graph.ofJson asset.json = .ok g ∧ g.WellFormed ∧
      (Job.compile ⟨g, asset.name, functions⟩ asset.uuid).value = .ok script := by
  rw [script?] at built
  cases read : Graph.ofJson asset.json with
  | error cause => simp [build, read, Except.toOption] at built
  | ok g =>
    rw [build_eq read] at built
    refine ⟨g, rfl, Graph.wellFormed_ofJson read, ?_⟩
    cases compiled : (Job.compile ⟨g, asset.name, functions⟩ asset.uuid).value with
    | error cause => simp [compiled, Except.toOption] at built
    | ok found =>
      simp only [compiled, Except.toOption, Option.some.injEq] at built
      rw [built]

theorem uuid_script? (built : asset.script? functions = some script) :
    script.uuid = asset.uuid := by
  obtain ⟨g, -, -, compiled⟩ := script?_eq_some built
  obtain ⟨layout, -, -, rfl⟩ := Job.compile_eq_ok compiled
  rfl

end GraphAsset

/-- A run adds the scripts of all assets that can be built to those that are there. -/
theorem ProjectBuild.run_perm (functions : Option Registry) {assets : List GraphAsset}
    {b : ProjectBuild} (distinct : (assets.map (·.uuid)).Nodup)
    (new : ∀ asset ∈ assets, asset.uuid ∉ b.table.scripts.map (·.uuid)) :
    (run functions assets b).value.table.scripts.Perm
      (assets.filterMap (·.script? functions) ++ b.table.scripts) := by
  induction assets generalizing b with
  | nil => exact .refl _
  | cons asset rest ih =>
    obtain ⟨alone, others⟩ := List.nodup_cons.mp distinct
    obtain ⟨first, later⟩ := List.forall_mem_cons.mp new
    rw [run]
    cases built : (asset.build functions).value with
    | error cause =>
      rw [List.filterMap_cons_none (by simp [GraphAsset.script?, built, Except.toOption])]
      exact ih others later
    | ok script =>
      have made : asset.script? functions = some script := by
        simp [GraphAsset.script?, built, Except.toOption]
      have uuid := GraphAsset.uuid_script? made
      have added := Table.add_perm (uuid ▸ first)
      have missing : ∀ other ∈ rest, other.uuid ∉ (b.table.add script).scripts.map (·.uuid) := by
        intro other member present
        rcases List.mem_cons.mp ((added.map (·.uuid)).subset present) with same | present
        · exact alone (List.mem_map.mpr ⟨other, member, same.trans uuid⟩)
        · exact later other member present
      rw [List.filterMap_cons_some made]
      refine (ih others missing).trans ?_
      exact (List.Perm.append_left _ added).trans List.perm_middle

theorem buildProject_perm (functions : Option Registry) {assets : List GraphAsset}
    (distinct : (assets.map (·.uuid)).Nodup) :
    (buildProject assets functions).value.table.scripts.Perm
      (assets.filterMap (·.script? functions)) := by
  have built := ProjectBuild.run_perm functions (b := .empty) distinct fun _ _ => nofun
  rwa [show ProjectBuild.empty.table.scripts = [] from rfl, List.append_nil] at built

/-- No two scripts of a project have one identifier. -/
theorem nodup_buildProject (functions : Option Registry) {assets : List GraphAsset}
    (distinct : (assets.map (·.uuid)).Nodup) :
    ((buildProject assets functions).value.table.scripts.map (·.uuid)).Nodup := by
  rw [((buildProject_perm functions distinct).map (·.uuid)).nodup_iff]
  refine List.Nodup.sublist ?_ distinct
  induction assets with
  | nil => exact .slnil
  | cons asset rest ih =>
    have shorter := ih (List.nodup_cons.mp distinct).2
    cases built : asset.script? functions with
    | none => rw [List.filterMap_cons_none built]; exact shorter.cons _
    | some script =>
      rw [List.filterMap_cons_some built, List.map_cons, List.map_cons,
        GraphAsset.uuid_script? built]
      exact shorter.cons_cons _

end NodeScript
