import NodeScript.Proofs.Compile.Parallel

/-!
What a unit depends on. The order of nodes and of links that share no pin and the positions of nodes
make no difference to it, nor does a node that is not used, but for labels in source that mark where
paths join.
-/
namespace NodeScript

namespace Job

variable {whole : Prop} {live : Uuid → Prop} {g h : Graph}

/-- The drafts of two graphs that agree. -/
theorem drafts_alike (formed : g.WellFormed) (formed' : h.WellFormed)
    (agrees : g.Agrees whole live h) (asset : String) (functions : Option Registry) :
    ∃ layout layout', Chain.ofGraph g asset = .ok layout ∧ Chain.ofGraph h asset = .ok layout' ∧
      Draft.Alike whole (draft ⟨g, asset, functions⟩ layout).1
          (draft ⟨h, asset, functions⟩ layout').1 ∧
        (draft ⟨g, asset, functions⟩ layout).2 = (draft ⟨h, asset, functions⟩ layout').2 := by
  obtain ⟨layout, after, success, laid⟩ := Chain.ofGraph_success formed asset
  obtain ⟨layout', after', success', laid'⟩ := Chain.ofGraph_success formed' asset
  have starts : g.Alike whole h g.start h.start := by
    obtain ⟨start, found, alike⟩ := agrees.node agrees.begins formed.node?_start.1
    rw [agrees.start, formed'.node?_start.1] at found
    exact Option.some.inj found ▸ alike
  have same : Draft.Alike whole .empty .empty := ⟨rfl, rfl, fun _ => rfl⟩
  exact ⟨layout, layout', success, success',
    same.lowerEntries asset functions starts (laid.parallel formed agrees laid') .empty⟩

/-- The outcome of a compilation, as its instructions show it. -/
theorem outcome_eq {job : Job} {layout : Layout}
    (success : Chain.ofGraph job.graph job.asset = .ok layout) (uuid : Uuid) :
    ((job.compile uuid).value.map fun script => (script.program, script.stackSize)) =
      match (job.draft layout).1.failure.map Prod.fst with
      | some error => .error error
      | none =>
        let script := (job.draft layout).1.bare.assembly.toScript uuid job.asset
          (job.draft layout).2
        .ok (script.program, script.stackSize) := by
  simp only [compile, success]
  cases (job.draft layout).1.failure <;> rfl

theorem compile_agrees (formed : g.WellFormed) (formed' : h.WellFormed)
    (agrees : g.Agrees whole live h) (asset : String) (functions : Option Registry) (uuid : Uuid) :
    ((compile ⟨h, asset, functions⟩ uuid).value.map fun script =>
        (script.program, script.stackSize)) =
      (compile ⟨g, asset, functions⟩ uuid).value.map fun script =>
        (script.program, script.stackSize) := by
  obtain ⟨layout, layout', success, success', alike, entries⟩ :=
    drafts_alike formed formed' agrees asset functions
  rw [@outcome_eq ⟨g, asset, functions⟩ _ success, @outcome_eq ⟨h, asset, functions⟩ _ success',
    alike.failure, alike.bare, entries]

theorem compile_rearranged (formed : g.WellFormed) (rearranged : g.Rearranged h) (asset : String)
    (functions : Option Registry) (uuid : Uuid) :
    compile ⟨h, asset, functions⟩ uuid = compile ⟨g, asset, functions⟩ uuid := by
  obtain ⟨layout, layout', success, success', alike, entries⟩ :=
    drafts_alike formed (rearranged.wellFormed formed) (rearranged.agrees formed) asset functions
  have nodes : g.nodes.length = h.nodes.length := by simpa using rearranged.nodes.length_eq
  simp only [compile, success, success', nodes, rearranged.links.length_eq, alike.equal trivial,
    entries]

end Job

/-- Compilation depends on no more than what is used. A graph in another order is accepted as well,
and compiled to the same unit, or for the same reason to none, with the same reports. Removing a
node that is neither reached from Start nor read by a node that is leaves the program and the size
of its stack, or the reason why there is none. -/
theorem compilation_depends_on_used_parts {nodes : List Node} {links : List Link} {g : Graph}
    (accepted : Graph.ofParts nodes links = .ok g) (asset : String) (functions : Option Registry)
    (uuid : Uuid) :
    (∀ h, g.Rearranged h → Graph.ofParts h.nodes h.links = .ok h ∧
      Job.compile ⟨h, asset, functions⟩ uuid = Job.compile ⟨g, asset, functions⟩ uuid) ∧
    ∀ dead h node, g.remove dead = .ok (h, node) → g.Unused dead →
      ((Job.compile ⟨h, asset, functions⟩ uuid).value.map fun script =>
          (script.program, script.stackSize)) =
        (Job.compile ⟨g, asset, functions⟩ uuid).value.map fun script =>
          (script.program, script.stackSize) := by
  have formed := Graph.wellFormed_of_ofParts accepted
  constructor
  · intro h rearranged
    have formed' := rearranged.wellFormed formed
    exact ⟨(Graph.ofParts_eq_ok_iff ..).mpr ⟨rfl, formed'⟩,
      Job.compile_rearranged formed rearranged asset functions uuid⟩
  · intro dead h node edited unused
    exact Job.compile_agrees formed (formed.remove edited) (unused.agrees formed edited) asset
      functions uuid

namespace Graph

/-- A comparison with a pause in front of it that nothing leads to. -/
def spare : Graph where
  nodes := [⟨1, .start, .origin⟩, ⟨2, .compare .less, .origin⟩, ⟨3, .value 5, .origin⟩,
    ⟨4, .wait .zero, .origin⟩]
  links := [⟨1, 0, 2, 0⟩, ⟨3, 0, 2, 1⟩, ⟨4, 0, 2, 0⟩]

/-- The same with all nodes, and two of its links, the other way round. -/
def spareTurned : Graph where
  nodes := spare.nodes.reverse
  links := [⟨1, 0, 2, 0⟩, ⟨4, 0, 2, 0⟩, ⟨3, 0, 2, 1⟩]

theorem rearranged_spare : spare.Rearranged spareTurned where
  nodes := by decide
  links := by decide
  outputs uuid pin := by
    by_cases here : uuid = 4
    · subst here
      rfl
    · have passed : ((4 : Uuid) == uuid) = false := beq_eq_false_iff_ne.mpr (Ne.symm here)
      simp [linksFrom, spare, spareTurned, List.filter_cons, passed]
  inputs uuid pin := by
    by_cases here : pin = 1
    · simp [linksInto, spare, spareTurned, List.filter_cons, here]
    · have passed : ((1 : UInt16) == pin) = false := beq_eq_false_iff_ne.mpr (Ne.symm here)
      simp [linksInto, spare, spareTurned, List.filter_cons, passed]

/-- Start leads to the comparison, and the comparison nowhere. -/
theorem reached_spare {uuid : Uuid} (path : spare.Reaches spare.start.uuid uuid) :
    uuid = 1 ∨ uuid = 2 := by
  have one : spare.targets ⟨1, .start, .origin⟩ = [2] := by decide
  have two : spare.targets ⟨2, .compare .less, .origin⟩ = [] := by decide
  induction path with
  | refl => exact .inl rfl
  | tail _ leads ih =>
    obtain ⟨node, found, target⟩ := leads
    rcases ih with rfl | rfl
    · cases found
      rw [one] at target
      exact .inr (List.mem_singleton.mp target)
    · cases found
      rw [two] at target
      cases target

theorem unused_spare : spare.Unused 4 where
  unreached path := by
    have reached := reached_spare path
    revert reached
    decide
  unread node path found pin input link first := by
    have sources : ((NodeType.valueInputs .compare).filterMap (spare.linkInto? 2)).map
        (·.fromNode) = [3] := by decide
    rcases reached_spare path with here | here
    · rw [here] at found
      cases found
      cases input
    · rw [here] at found first
      cases found
      have source : link.fromNode ∈ [3] :=
        sources ▸ List.mem_map_of_mem (List.mem_filterMap.mpr ⟨pin, input, first⟩)
      rw [List.mem_singleton.mp source]
      decide

end Graph

theorem compilation_depends_on_used_parts_spare :
    Graph.ofParts Graph.spare.nodes Graph.spare.links = .ok Graph.spare ∧
      Job.compile ⟨Graph.spareTurned, "spare", none⟩ 9 =
        Job.compile ⟨Graph.spare, "spare", none⟩ 9 ∧
      ∃ h node, Graph.spare.remove 4 = .ok (h, node) ∧ h.links.length = 2 ∧
        ((Job.compile ⟨h, "spare", none⟩ 9).value.map fun script =>
            (script.program, script.stackSize)) =
          (Job.compile ⟨Graph.spare, "spare", none⟩ 9).value.map fun script =>
            (script.program, script.stackSize) := by
  have accepted : Graph.ofParts Graph.spare.nodes Graph.spare.links = .ok Graph.spare := by rfl
  obtain ⟨turned, removed⟩ := compilation_depends_on_used_parts accepted "spare" none 9
  exact ⟨accepted, (turned Graph.spareTurned Graph.rearranged_spare).2, _, _, rfl, rfl,
    removed 4 _ _ rfl Graph.unused_spare⟩

end NodeScript
