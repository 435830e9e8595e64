import NodeScript.Proofs.Table.Additions
import NodeScript.Proofs.Table.Definitions

/-!
What a project is built to, told from its assets one by one. The table is made by adding the scripts
of the assets that can be built, and the errors are those of the others. So an asset that cannot be
built leaves no trace in the table, and where each asset has an identifier of its own the order of
the assets does not matter.
-/
namespace NodeScript

namespace GraphAsset

variable (functions : Option Registry) (asset : GraphAsset)

/-- Why an asset cannot be built on its own: its document is not read, or its graph does not
compile. -/
def error? : Option CompileError :=
  match Graph.ofJson asset.json with
  | .error source => some (.graph asset.name source)
  | .ok g =>
    match (Job.compile ⟨g, asset.name, functions⟩ asset.uuid).value with
    | .error cause => some cause
    | .ok _ => none

/-- An asset has a script or an error. -/
theorem build_cases :
    (∃ script, (asset.build functions).value = .ok script ∧
        asset.script? functions = some script ∧ asset.error? functions = none) ∨
      ∃ cause, (asset.build functions).value = .error cause ∧
        asset.script? functions = none ∧ asset.error? functions = some cause := by
  rw [script?, error?]
  cases read : Graph.ofJson asset.json with
  | error source =>
    have failed : (asset.build functions).value = .error (.graph asset.name source) := by
      rw [build, read]
    exact .inr ⟨_, failed, by rw [failed]; rfl, rfl⟩
  | ok g =>
    rw [build_eq read]
    cases compiled : (Job.compile ⟨g, asset.name, functions⟩ asset.uuid).value with
    | error cause => exact .inr ⟨cause, rfl, rfl, by simp [compiled]⟩
    | ok script => exact .inl ⟨script, rfl, rfl, by simp [compiled]⟩

end GraphAsset

namespace ProjectBuild

variable {functions : Option Registry}

/-- What a run adds to a build. -/
theorem value_run (assets : List GraphAsset) (b : ProjectBuild) :
    (run functions assets b).value =
      ⟨(assets.filterMap (·.script? functions)).foldl Table.add b.table,
        b.errors ++ assets.filterMap (·.error? functions)⟩ := by
  induction assets generalizing b with
  | nil => simp [run]
  | cons asset rest ih =>
    rw [run, ih]
    rcases asset.build_cases functions with ⟨script, built, script?, error?⟩ |
      ⟨cause, built, script?, error?⟩
    · rw [built, add, List.filterMap_cons_some script?, List.filterMap_cons_none error?,
        List.foldl_cons]
    · rw [built, add, List.filterMap_cons_none script?, List.filterMap_cons_some error?,
        List.append_assoc]
      rfl

end ProjectBuild

section Project

variable {functions : Option Registry} {assets others : List GraphAsset}

theorem table_buildProject (functions : Option Registry) (assets : List GraphAsset) :
    (buildProject assets functions).value.table =
      (assets.filterMap (·.script? functions)).foldl Table.add .empty := by
  rw [buildProject, ProjectBuild.value_run]
  rfl

theorem errors_buildProject (functions : Option Registry) (assets : List GraphAsset) :
    (buildProject assets functions).value.errors = assets.filterMap (·.error? functions) := by
  rw [buildProject, ProjectBuild.value_run]
  rfl

/-- The scripts under an identifier are those of the assets under it. -/
theorem filter_scripts (functions : Option Registry) (assets : List GraphAsset) (uuid : Uuid) :
    (assets.filterMap (·.script? functions)).filter (·.uuid = uuid) =
      (assets.filter (·.uuid = uuid)).filterMap (·.script? functions) := by
  rw [List.filter_filterMap, List.filterMap_filter]
  refine List.filterMap_congr fun asset _ => ?_
  cases built : asset.script? functions with
  | none => simp
  | some script => simp [Option.filter, GraphAsset.uuid_script? built]

/-- Assets without a script may be left out. -/
theorem filterMap_script?_filter {keep : GraphAsset → Bool}
    (failed : ∀ asset ∈ assets, keep asset = false → (asset.error? functions).isSome) :
    (assets.filter keep).filterMap (·.script? functions) =
      assets.filterMap (·.script? functions) := by
  rw [List.filterMap_filter]
  refine List.filterMap_congr fun asset member => ?_
  split
  · rfl
  next dropped =>
    rcases asset.build_cases functions with ⟨script, -, -, none⟩ | ⟨cause, -, script?, -⟩
    · have some := failed asset member (by simpa using dropped)
      rw [none] at some
      cases some
    · exact script?.symm

/-- Ascending identifiers leave one order for the scripts of a table. -/
theorem Table.Ascending.eq_of_perm {t t' : Table} (ascending : t.Ascending)
    (ascending' : t'.Ascending) (perm : t.scripts.Perm t'.scripts) : t = t' := by
  have same : t.scripts = t'.scripts :=
    perm.eq_of_pairwise (fun _ _ _ _ less greater => absurd less (UInt64.lt_asymm greater))
      ascending ascending'
  cases t
  cases t'
  exact congrArg Table.mk same

theorem table_of_perm (distinct : (assets.map (·.uuid)).Nodup) (perm : assets.Perm others) :
    (buildProject others functions).value.table = (buildProject assets functions).value.table := by
  have ordered (assets : List GraphAsset) :
      (buildProject assets functions).value.table.Ascending := by
    rw [table_buildProject]
    exact Table.ascending_additions _
  refine (ordered others).eq_of_perm (ordered assets) ?_
  have built := buildProject_perm functions distinct
  have built' := buildProject_perm functions ((perm.map (·.uuid)).nodup_iff.mp distinct)
  exact built'.trans ((perm.filterMap _).symm.trans built.symm)

/-- Assets are built one by one. The errors are those that the assets have on their own, in the
order of the assets. Under each identifier the table holds the script of the last asset that has
one, and there are no other scripts. Assets that cannot be built may be taken away without a change
to the table, and where assets have identifiers of their own their order shows nowhere in it. -/
theorem assets_build_one_by_one (functions : Option Registry) (assets : List GraphAsset) :
    let built := (buildProject assets functions).value
    built.errors = assets.filterMap (·.error? functions) ∧
      (∀ uuid, built.table.getByUuid? uuid =
        ((assets.filter (·.uuid = uuid)).filterMap (·.script? functions)).getLast?) ∧
      (∀ script, script ∈ built.table.scripts ↔
        ((assets.filter (·.uuid = script.uuid)).filterMap (·.script? functions)).getLast? =
          some script) ∧
      (∀ keep : GraphAsset → Bool,
        (∀ asset ∈ assets, keep asset = false → (asset.error? functions).isSome) →
          (buildProject (assets.filter keep) functions).value.table = built.table) ∧
      ((assets.map (·.uuid)).Nodup → ∀ others, assets.Perm others →
        let rebuilt := (buildProject others functions).value
        rebuilt.table = built.table ∧ rebuilt.table.assetIndices = built.table.assetIndices ∧
          rebuilt.table.source = built.table.source) := by
  intro built
  have table : built.table = _ := table_buildProject functions assets
  have found (uuid : Uuid) : built.table.getByUuid? uuid =
      ((assets.filter (·.uuid = uuid)).filterMap (·.script? functions)).getLast? := by
    rw [table, Table.getByUuid?_additions, Table.lastUnder?, filter_scripts]
  have ascending : built.table.Ascending := by
    rw [table]
    exact Table.ascending_additions _
  refine ⟨errors_buildProject functions assets, found, fun script => ?_, fun keep failed => ?_,
    fun distinct others perm => ?_⟩
  · rw [ascending.mem_scripts, found]
  · rw [table, table_buildProject, filterMap_script?_filter failed]
  · have same := @table_of_perm functions _ _ distinct perm
    exact ⟨same, congrArg Table.assetIndices same, congrArg Table.source same⟩

/-- An asset without a document. -/
def GraphAsset.broken : GraphAsset := ⟨0x12, "broken", ""⟩

theorem GraphAsset.error?_calling {uuid : Uuid} {name : String}
    (compiles : (Job.compile ⟨Graph.calling, name, none⟩ uuid).value.isOk = true) :
    error? none ⟨uuid, name, Graph.calling.toJson⟩ = none := by
  have read : Graph.ofJson (mk uuid name Graph.calling.toJson).json = .ok Graph.calling :=
    Graph.ofJson_calling
  rw [error?, read]
  cases compiled : (Job.compile ⟨Graph.calling, name, none⟩ uuid).value with
  | error cause => simp [compiled, Except.isOk, Except.toBool] at compiles
  | ok script => simp [compiled]

open GraphAsset (broken sharing) in
/-- An asset without a document in front of two that can be built: it is reported and can be taken
away or moved to the end. -/
theorem assets_build_one_by_one_broken :
    ((broken :: sharing).map (·.uuid)).Nodup ∧ (broken :: sharing).Perm (sharing ++ [broken]) ∧
      (buildProject (broken :: sharing) none).value.errors = [.graph "broken" .malformed] ∧
      (buildProject ((broken :: sharing).filter (·.uuid ≠ 0x12)) none).value.table =
        (buildProject (broken :: sharing) none).value.table ∧
      (buildProject (sharing ++ [broken]) none).value.table.source =
        (buildProject (broken :: sharing) none).value.table.source := by
  have unread : broken.error? none = some (.graph "broken" .malformed) := by decide +kernel
  have first := @GraphAsset.error?_calling 0x10 "first" (by decide +kernel)
  have second := @GraphAsset.error?_calling 0x11 "second" (by decide +kernel)
  have distinct : ((broken :: sharing).map (·.uuid)).Nodup := by
    change [(0x12 : Uuid), 0x10, 0x11].Nodup
    decide
  have perm : (broken :: sharing).Perm (sharing ++ [broken]) := (List.perm_append_singleton _ _).symm
  obtain ⟨errors, -, -, kept, moved⟩ := assets_build_one_by_one none (broken :: sharing)
  refine ⟨distinct, perm, ?_, kept _ fun asset member dropped => ?_, (moved distinct _ perm).2.2⟩
  · rw [errors, sharing, List.filterMap_cons_some unread, List.filterMap_cons_none first,
      List.filterMap_cons_none second, List.filterMap_nil]
  · rcases List.mem_cons.mp member with rfl | member
    · rw [unread]
      rfl
    · have other : ∀ asset ∈ sharing, asset.uuid ≠ 0x12 :=
        List.forall_mem_cons.mpr ⟨by decide, List.forall_mem_singleton.mpr (by decide)⟩
      simp [other asset member] at dropped

end Project

end NodeScript
