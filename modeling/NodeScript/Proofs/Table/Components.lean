import NodeScript.Component
import NodeScript.Proofs.Execution.Triggers
import NodeScript.Proofs.Table.Lookup

/-!
Script components and what they run. A record holds an index of sixteen bits, one of which stands
for a missing asset without being kept free. A component runs its own asset where that has another
index, and a component whose asset is missing runs the dummy where no script has that index.
-/
namespace NodeScript

namespace Instance

variable {τ : Type} {script : Script} {i : Instance τ}

/-- Nothing runs, nothing waits and nothing has been issued. -/
structure Idle (script : Script) (i : Instance τ) : Prop where
  stored : i.script = some script
  loaded : i.phase ≠ .unloaded
  stopped : i.machine.pc = none
  none_waits : i.pending = []
  none_issued : i.machine.commands = #[]

theorem idle_bind (i : Instance τ) (silent : script.program.entries = .empty) (registry : Registry)
    (config : Config) (j : Journal) : Idle script (i.bind script registry config j).1 :=
  ⟨rfl, nofun, by simp [bind, silent, Entries.empty], rfl, rfl⟩

theorem script_load (i : Instance τ) (t : Table) (registry : Registry) (index : Nat)
    (config : Config) (j : Journal) :
    (i.load t registry index config j).1.script = some (t.scriptAt index) := by
  rw [load, Table.scriptAt]
  cases t.get? index <;> rfl

/-- Behind the last script the dummy is loaded. -/
theorem idle_load {t : Table} {index : Nat} (i : Instance τ) (behind : t.size ≤ index)
    (registry : Registry) (config : Config) (j : Journal) :
    Idle .dummy (i.load t registry index config j).1 := by
  have none : t.get? index = none := List.getElem?_eq_none behind
  rw [load, none]
  exact idle_bind i rfl registry config _

/-- A script without entries is not started by anything. -/
theorem Idle.serve [Elapsed τ] (idle : Idle script i) (silent : script.program.entries = .empty)
    (request : Request τ) (j : Journal) : Idle script (i.serve j request).1 := by
  cases request with
  | update frame =>
    simp only [Instance.serve, Instance.update, idle.stored]
    cases phase : i.phase with
    | unloaded | finished => exact idle
    | running | suspended =>
      simp only [Machine.resume, idle.stopped, settle, idle.none_waits, nextPending?]
      exact ⟨idle.stored, by simp, idle.stopped, rfl, idle.none_issued⟩
  | trigger trigger =>
    have missing : script.program.entries.get trigger = none := by
      rw [silent]
      cases trigger <;> rfl
    simp only [Instance.serve, Instance.trigger, idle.stored, missing]
    exact idle

theorem Idle.serveAll [Elapsed τ] (idle : Idle script i) (silent : script.program.entries = .empty)
    (requests : List (Request τ)) (j : Journal) :
    Idle script (Instance.serveAll requests i j).1 := by
  induction requests generalizing i j with
  | nil => exact idle
  | cons request rest ih => exact ih (idle.serve silent request j) _

end Instance

theorem ComponentRecord.isResolved_iff (record : ComponentRecord) :
    record.isResolved ↔ record.assetIndex.toNat ≠ missingAssetIndex.toNat := by
  rw [isResolved, bne_iff_ne, ne_eq, ne_eq, UInt16.toNat_inj]

namespace Component

variable {t : Table} {c : Component} {script : Script} {index : Nat}

theorem assetIndex_build (c : Component) (indices : SortedMap UInt64 UInt16) :
    (c.build indices).value.assetIndex = (indices.find? c.asset).getD missingAssetIndex := by
  unfold build
  cases indices.find? c.asset <;> rfl

/-- Where no number of sixteen bits is the index of an asset, the index for missing ones is built. -/
theorem assetIndex_of_unlisted (ascending : t.Ascending)
    (unlisted : ∀ listed : UInt16, t.indexOf? c.asset ≠ some listed.toNat) :
    (c.build t.assetIndices).value.assetIndex = missingAssetIndex := by
  have missing : t.assetIndices.find? c.asset = none :=
    Option.eq_none_iff_forall_ne_some.mpr fun listed found =>
      unlisted listed (ascending.find?_assetIndices.mp found)
  rw [assetIndex_build, missing, Option.getD_none]

/-- An asset is built to its index if that has sixteen bits, and else to the index for missing
ones. -/
theorem assetIndex_of_present (ascending : t.Ascending) (at_index : t.get? index = some script)
    (same : script.uuid = c.asset) :
    (c.build t.assetIndices).value.assetIndex.toNat =
      if index < UInt16.size then index else missingAssetIndex.toNat := by
  have place : t.indexOf? c.asset = some index :=
    ascending.indexOf?_eq_some_iff.mpr ⟨script, at_index, same⟩
  split
  · next small =>
    have kept : index.toUInt16.toNat = index := UInt16.toNat_ofNat_of_lt' small
    rw [assetIndex_build, ascending.find?_assetIndices.mpr (kept.symm ▸ place), Option.getD_some,
      kept]
  · next large =>
    rw [assetIndex_of_unlisted ascending fun listed here => large ?_]
    rw [Option.some.inj (place.symm.trans here)]
    exact listed.toNat_lt

/-- An asset that is not there is built to the index for missing ones. -/
theorem assetIndex_of_absent (ascending : t.Ascending)
    (absent : ∀ script ∈ t.scripts, script.uuid ≠ c.asset) :
    (c.build t.assetIndices).value.assetIndex = missingAssetIndex := by
  refine assetIndex_of_unlisted ascending fun listed here => ?_
  obtain ⟨script, at_index, same⟩ := ascending.indexOf?_eq_some_iff.mp here
  exact absent script (List.mem_of_getElem? at_index) same

variable {τ : Type} [Elapsed τ]

/-- Builds a component against a table and loads its record from there. -/
def loadInto (c : Component) (t : Table) (i : Instance τ) (registry : Registry) (config : Config)
    (j : Journal) : Instance τ × Journal :=
  i.load t registry (c.build t.assetIndices).value.assetIndex.toNat config j

/-- What is promised of a component that is built against a table and loaded from it. Its record is
resolved exactly if the table has its asset. The script of the asset is loaded then, and the dummy
otherwise, which never issues a command. -/
structure RunsOwn (t : Table) (c : Component) (i : Instance τ) (registry : Registry)
    (config : Config) (j : Journal) : Prop where
  resolved : (c.build t.assetIndices).value.isResolved ↔
    ∃ script ∈ t.scripts, script.uuid = c.asset
  own : ∀ script ∈ t.scripts, script.uuid = c.asset →
    (c.loadInto t i registry config j).1.script = some script
  dummy : (∀ script ∈ t.scripts, script.uuid ≠ c.asset) →
    (c.loadInto t i registry config j).1.script = some .dummy ∧
      ∀ requests, (Instance.serveAll requests (c.loadInto t i registry config j).1
        (c.loadInto t i registry config j).2).1.machine.commands = #[]

section Loaded

variable {i : Instance τ} {registry : Registry} {config : Config} {j : Journal}

/-- A component whose asset has an index runs it exactly if a record can hold the index and does not
take it for the index of a missing asset. -/
theorem runsOwn_iff_of_present (ascending : t.Ascending) (at_index : t.get? index = some script)
    (same : script.uuid = c.asset) :
    RunsOwn t c i registry config j ↔ index < UInt16.size ∧ index ≠ missingAssetIndex.toNat := by
  have built := assetIndex_of_present ascending at_index same
  have member : script ∈ t.scripts := List.mem_of_getElem? at_index
  constructor
  · intro runs
    have resolved :=
      (ComponentRecord.isResolved_iff _).mp (runs.resolved.mpr ⟨script, member, same⟩)
    rw [built] at resolved
    split at resolved
    · next small => exact ⟨small, resolved⟩
    · exact absurd rfl resolved
  · rintro ⟨small, apart⟩
    rw [if_pos small] at built
    refine ⟨⟨fun _ => ⟨script, member, same⟩, fun _ => ?_⟩, fun other there same' => ?_,
      fun absent => absurd same (absent script member)⟩
    · exact (ComponentRecord.isResolved_iff _).mpr (built ▸ apart)
    · have found := ascending.getByUuid?_eq_some_iff.mpr ⟨there, same'⟩
      obtain rfl := Option.some.inj
        (found.symm.trans (ascending.getByUuid?_eq_some_iff.mpr ⟨member, same⟩))
      rw [loadInto, built, Instance.script_load, Table.scriptAt, at_index, Option.getD_some]

/-- A component whose asset is not there runs the dummy exactly if no script has the index for
missing assets. -/
theorem runsOwn_iff_of_absent (ascending : t.Ascending)
    (absent : ∀ script ∈ t.scripts, script.uuid ≠ c.asset) :
    RunsOwn t c i registry config j ↔ t.size ≤ missingAssetIndex.toNat := by
  have built := assetIndex_of_absent ascending absent
  constructor
  · intro runs
    by_contra many
    have inside := Nat.not_le.mp many
    have first := List.getElem?_eq_getElem (Nat.zero_lt_of_lt inside)
    have there := List.getElem?_eq_getElem inside
    -- Identifiers ascend, so only the first script can be the dummy.
    have above := ascending.lt first there (by decide)
    have loaded := (runs.dummy absent).1
    rw [loadInto, built, Instance.script_load, Table.scriptAt, Table.get?, there, Option.getD_some,
      Option.some.injEq] at loaded
    rw [loaded] at above
    exact absurd above (UInt64.not_lt.mpr UInt64.zero_le)
  · intro few
    have idle : Instance.Idle .dummy (c.loadInto t i registry config j).1 :=
      Instance.idle_load i (built ▸ few) registry config j
    refine ⟨⟨fun resolved => ?_, fun ⟨script, member, same⟩ => absurd same (absent script member)⟩,
      fun script member same => absurd same (absent script member), fun _ =>
        ⟨idle.stored, fun requests => (idle.serveAll rfl requests _).none_issued⟩⟩
    exact absurd (built ▸ rfl) ((ComponentRecord.isResolved_iff _).mp resolved)

end Loaded

/-- What a component runs that is built against a table and loaded from it: the script at the index
of its record, or the dummy if there is none. An asset that the table has is built to its own index,
or to the index for missing assets if its own takes more than sixteen bits; the component runs it
exactly if its own index fits and is another one. An asset that the table does not have is built to
the index for missing assets; the component runs the dummy exactly if no script has that index. -/
theorem runs_own_asset (scripts : List Script) (c : Component) (i : Instance τ)
    (registry : Registry) (config : Config) (j : Journal) :
    let table := scripts.foldl Table.add .empty
    let built := (c.build table.assetIndices).value.assetIndex
    (c.loadInto table i registry config j).1.script = some (table.scriptAt built.toNat) ∧
      (∀ index script, table.get? index = some script → script.uuid = c.asset →
        built.toNat = (if index < UInt16.size then index else missingAssetIndex.toNat) ∧
          (RunsOwn table c i registry config j ↔
            index < UInt16.size ∧ index ≠ missingAssetIndex.toNat)) ∧
      ((∀ script ∈ table.scripts, script.uuid ≠ c.asset) →
        built = missingAssetIndex ∧
          (RunsOwn table c i registry config j ↔ table.size ≤ missingAssetIndex.toNat)) := by
  intro table built
  have ascending : table.Ascending := Table.ascending_foldl_add Table.ascending_empty scripts
  refine ⟨Instance.script_load .., fun index script at_index same => ?_, fun absent => ?_⟩
  · exact ⟨assetIndex_of_present ascending at_index same,
      runsOwn_iff_of_present ascending at_index same⟩
  · exact ⟨assetIndex_of_absent ascending absent, runsOwn_iff_of_absent ascending absent⟩

end Component

/-- Scripts with the identifiers below a bound. -/
def Script.numbered (bound : Nat) : List Script :=
  (List.range bound).map fun n => { Script.dummy with uuid := n.toUInt64 }

namespace Table

section Numbered

variable {bound : Nat} (fits : bound < UInt64.size)

include fits

theorem foldl_add_numbered :
    (Script.numbered bound).reverse.foldl add empty = ⟨Script.numbered bound⟩ := by
  refine foldl_add_reverse (List.pairwise_map.mpr ?_)
  refine List.pairwise_lt_range.imp_of_mem fun {a b} _ inside less => ?_
  have small : b < UInt64.size := Nat.lt_trans (List.mem_range.mp inside) fits
  exact UInt64.ofNat_lt_iff_lt (Nat.lt_trans less small) small |>.mpr less

theorem size_numbered : ((Script.numbered bound).reverse.foldl add empty).size = bound := by
  rw [foldl_add_numbered fits]
  simp [size, Script.numbered]

theorem get?_numbered {n : Nat} (inside : n < bound) :
    ((Script.numbered bound).reverse.foldl add empty).get? n =
      some { Script.dummy with uuid := n.toUInt64 } := by
  rw [foldl_add_numbered fits]
  simp [get?, Script.numbered, inside]

theorem uuid_ne_of_mem_numbered :
    ∀ script ∈ ((Script.numbered bound).reverse.foldl add empty).scripts,
      script.uuid ≠ bound.toUInt64 := by
  rw [foldl_add_numbered fits]
  intro script member
  obtain ⟨n, inside, rfl⟩ := List.mem_map.mp member
  have less := List.mem_range.mp inside
  exact UInt64.ne_of_lt ((UInt64.ofNat_lt_iff_lt (Nat.lt_trans less fits) fits).mpr less)

end Numbered

end Table

namespace Component

/-- There are just enough scripts for one to have the index for missing assets. The component of the
script before it runs it. The component of that script is not resolved, and a component whose asset
is missing loads that script in place of the dummy. -/
theorem runs_own_asset_numbered :
    let table := (Script.numbered 57006).reverse.foldl Table.add .empty
    let component (n : Nat) : Component := ⟨n.toUInt64, true, false⟩
    let i : Instance Millis := .new 9
    RunsOwn table (component 57004) i .empty .standard .empty ∧
      ¬ RunsOwn table (component 57005) i .empty .standard .empty ∧
      ((component 57005).build table.assetIndices).value.isResolved = false ∧
      ¬ RunsOwn table (component 57006) i .empty .standard .empty ∧
      ((component 57006).loadInto table i .empty .standard .empty).1.script =
        some { Script.dummy with uuid := Nat.toUInt64 57005 } := by
  have fits : 57006 < UInt64.size := by decide
  have reserved : missingAssetIndex.toNat = 57005 := by decide
  have size := Table.size_numbered fits
  have script_at {n : Nat} (inside : n < 57006) := Table.get?_numbered fits inside
  have absent := Table.uuid_ne_of_mem_numbered fits
  have spec (n : Nat) := runs_own_asset (Script.numbered 57006).reverse ⟨n.toUInt64, true, false⟩
    (.new 9 : Instance Millis) .empty .standard .empty
  -- What the table holds is told by these facts alone; it is not to be computed.
  generalize (Script.numbered 57006).reverse.foldl Table.add .empty = table
    at size script_at absent spec ⊢
  intro table component i
  obtain ⟨-, own⟩ := (spec 57004).2.1 _ _ (script_at (by decide)) rfl
  obtain ⟨built, taken⟩ := (spec 57005).2.1 _ _ (script_at (by decide)) rfl
  obtain ⟨script, -, missing⟩ := spec 57006
  obtain ⟨unbuilt, foreign⟩ := missing absent
  rw [if_pos (by decide), ← reserved] at built
  refine ⟨own.mpr (by decide), fun runs => (taken.mp runs).2 reserved.symm, ?_, fun runs => ?_, ?_⟩
  · exact Bool.eq_false_iff.mpr fun resolved =>
      (ComponentRecord.isResolved_iff _).mp resolved built
  · have few := foreign.mp runs
    rw [size, reserved] at few
    omega
  · rw [script, unbuilt, Table.scriptAt, reserved, script_at (by decide), Option.getD_some]

end Component

end NodeScript
