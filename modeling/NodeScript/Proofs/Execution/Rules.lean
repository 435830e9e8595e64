import NodeScript.Execution.Instance

/-!
What instructions and triggers do, as rules. Each rule says when it applies and what it leads to; an
instruction does what one of them says and nothing else, so what holds of all instructions is shown
rule by rule. The same goes for triggers. An update does nothing, or takes a turn and settles it.
-/
namespace NodeScript

namespace Machine

variable {τ : Type} [Elapsed τ]

/-- What the instruction at an address leads to. -/
inductive StepsTo (program : Program) (frame : τ) (pc : Addr) (m : Machine τ) (j : Journal) :
    Step τ → Prop
  | outside (missing : program.code[pc.toNat]? = none) :
      StepsTo program frame pc m j (.stop .finished m.finish (j.report (.addressOutside pc)))
  | unroomy {slot : Slot} {value : Int64}
      (found : program.code[pc.toNat]? = some (.setLocal slot value))
      (beyond : ¬ slot.toNat < m.locals.size) :
      StepsTo program frame pc m j (.stop .finished m.finish (j.report (.localOutside slot)))
  | setLocal {slot : Slot} {value : Int64}
      (found : program.code[pc.toNat]? = some (.setLocal slot value))
      (room : slot.toNat < m.locals.size) :
      StepsTo program frame pc m j
        (.next (pc + 1) { m with locals := m.locals.setIfInBounds slot.toNat value } j)
  /-- A pause begins with the frame in which it is come upon. -/
  | enter {duration : Operand} (found : program.code[pc.toNat]? = some (.sleep duration))
      (fresh : m.slept = none) :
      StepsTo program frame pc m j
        (.stop .suspended { m with pc := some pc, slept := some frame } j)
  | wait {duration : Operand} {before : τ}
      (found : program.code[pc.toNat]? = some (.sleep duration)) (slept : m.slept = some before)
      (short : ¬ Elapsed.reaches (Elapsed.add before frame) (m.read duration)) :
      StepsTo program frame pc m j
        (.stop .suspended { m with pc := some pc, slept := some (Elapsed.add before frame) } j)
  | wake {duration : Operand} {before : τ}
      (found : program.code[pc.toNat]? = some (.sleep duration)) (slept : m.slept = some before)
      (enough : Elapsed.reaches (Elapsed.add before frame) (m.read duration)) :
      StepsTo program frame pc m j (.next (pc + 1) { m with slept := none } j)
  | deleteObject {object : Operand}
      (found : program.code[pc.toNat]? = some (.deleteObject object)) :
      StepsTo program frame pc m j
        (.next (pc + 1) (m.issue (.deleteObject (m.object object)))
          (j.add (.command (.deleteObject (m.object object)))))
  | sendEvent {object eventType value : Operand} {command : Command}
      (found : program.code[pc.toNat]? = some (.sendEvent object eventType value))
      (issued : command = .sendEvent (m.object object) m.owner
        (m.read eventType).toUInt64.toUInt16 (m.read value).toUInt64.toUInt32) :
      StepsTo program frame pc m j (.next (pc + 1) (m.issue command) (j.add (.command command)))
  | call {function result : Slot} {argument : Operand} {f : UserFunction}
      (found : program.code[pc.toNat]? = some (.call function argument result))
      (linked : m.bound[function.toNat]?.join = some f) :
      StepsTo program frame pc m j
        (.next (pc + 1)
          (m.setGlobal result (j.call f (m.read argument).toUInt64.toUInt32).2.toInt64)
          (j.call f (m.read argument).toUInt64.toUInt32).1)
  | miss {function result : Slot} {argument : Operand}
      (found : program.code[pc.toNat]? = some (.call function argument result))
      (unlinked : m.bound[function.toNat]?.join = none) :
      StepsTo program frame pc m j
        (.next (pc + 1) (m.setGlobal result 0) (j.report (.undefinedCall function)))
  | goOn {op : CompareOp} {lhs rhs : Operand} {target : Addr}
      (found : program.code[pc.toNat]? = some (.jumpUnless op lhs rhs target))
      (holds : op.holds (m.read lhs) (m.read rhs)) :
      StepsTo program frame pc m j (.next (pc + 1) m j)
  | branch {op : CompareOp} {lhs rhs : Operand} {target : Addr}
      (found : program.code[pc.toNat]? = some (.jumpUnless op lhs rhs target))
      (fails : ¬ op.holds (m.read lhs) (m.read rhs)) :
      StepsTo program frame pc m j (.next target m j)
  | again {counter : Slot} {bound : UInt32} {exit : Addr}
      (found : program.code[pc.toNat]? = some (.loop counter bound exit))
      (below : m.read (.global counter) < Int64.ofNat bound.toNat) :
      StepsTo program frame pc m j
        (.next (pc + 1) (m.setGlobal counter (m.read (.global counter) + 1)) j)
  | leave {counter : Slot} {bound : UInt32} {exit : Addr}
      (found : program.code[pc.toNat]? = some (.loop counter bound exit))
      (full : ¬ m.read (.global counter) < Int64.ofNat bound.toNat) :
      StepsTo program frame pc m j (.next exit (m.setGlobal counter 0) j)
  | jump {target : Addr} (found : program.code[pc.toNat]? = some (.jump target)) :
      StepsTo program frame pc m j (.next target m j)
  | finish (found : program.code[pc.toNat]? = some .finish) :
      StepsTo program frame pc m j (.stop .finished m.finish j)

variable {program : Program} {frame : τ} {pc : Addr} {m : Machine τ} {j : Journal}
  {result : Step τ}

/-- What an instruction does is what a rule says. -/
theorem stepsTo_step (program : Program) (frame : τ) (pc : Addr) (m : Machine τ) (j : Journal) :
    StepsTo program frame pc m j (step program frame pc m j) := by
  unfold step
  cases found : program.code[pc.toNat]? with
  | none => exact .outside found
  | some instruction =>
    cases instruction with
    | setLocal slot value =>
      dsimp only
      split
      · next room => exact .setLocal found room
      · next beyond => exact .unroomy found beyond
    | sleep duration =>
      dsimp only
      cases slept : m.slept with
      | none => exact .enter found slept
      | some before =>
        dsimp only
        split
        · next enough => exact .wake found slept enough
        · next short => exact .wait found slept short
    | deleteObject object => exact .deleteObject found
    | sendEvent object eventType value => exact .sendEvent found rfl
    | call function argument result =>
      dsimp only
      cases linked : m.bound[function.toNat]?.join with
      | some f => exact .call found linked
      | none => exact .miss found linked
    | jumpUnless op lhs rhs target =>
      dsimp only
      split
      · next holds => exact .goOn found holds
      · next fails => exact .branch found fails
    | loop counter bound exit =>
      dsimp only
      split
      · next below => exact .again found below
      · next full => exact .leave found full
    | jump target => exact .jump found
    | finish => exact .finish found

/-- What a rule says is what the instruction does. -/
theorem StepsTo.step_eq (steps : StepsTo program frame pc m j result) :
    step program frame pc m j = result := by
  unfold step
  cases steps with
  | outside missing => rw [missing]
  | unroomy found beyond =>
    rw [found]
    exact if_neg beyond
  | setLocal found room =>
    rw [found]
    exact if_pos room
  | enter found fresh => rw [found, fresh]
  | wait found slept short =>
    rw [found, slept]
    exact if_neg short
  | wake found slept enough =>
    rw [found, slept]
    exact if_pos enough
  | deleteObject found => rw [found]
  | sendEvent found issued => rw [found, issued]
  | call found linked =>
    rw [found]
    dsimp only
    rw [linked]
  | miss found unlinked =>
    rw [found]
    dsimp only
    rw [unlinked]
  | goOn found holds =>
    rw [found]
    exact if_pos holds
  | branch found fails =>
    rw [found]
    exact if_neg fails
  | again found below =>
    rw [found]
    exact if_pos below
  | leave found full =>
    rw [found]
    exact if_neg full
  | jump found | finish found => rw [found]

/-- The step function and the rules say the same. -/
theorem stepsTo_iff : StepsTo program frame pc m j result ↔ step program frame pc m j = result := by
  constructor
  · exact StepsTo.step_eq
  · rintro rfl
    exact stepsTo_step program frame pc m j

end Machine

namespace Instance

variable {τ : Type}

/-- What a trigger leads to. -/
inductive TriggersTo (i : Instance τ) (trigger : Trigger) (j : Journal) :
    Instance τ × Journal → Prop
  | unloaded (absent : i.script = none) :
      TriggersTo i trigger j (i, j.report (.triggerBeforeLoad i.owner trigger))
  | entryless {script : Script} (stored : i.script = some script)
      (missing : script.program.entries.get trigger = none) :
      TriggersTo i trigger j (i, j.report (.triggerWithoutEntry i.owner trigger script.name))
  | start {script : Script} {entry : Addr} (stored : i.script = some script)
      (found : script.program.entries.get trigger = some entry) (ended : i.phase = .finished) :
      TriggersTo i trigger j
        ({ i with phase := .running, machine := { i.machine with pc := some entry } }, j)
  | queue {script : Script} {entry : Addr} (stored : i.script = some script)
      (found : script.program.entries.get trigger = some entry) (busy : i.phase ≠ .finished)
      (room : i.pending.length < i.config.maxPendingTriggers) :
      TriggersTo i trigger j ({ i with pending := i.pending ++ [trigger] }, j)
  | refuse {script : Script} {entry : Addr} (stored : i.script = some script)
      (found : script.program.entries.get trigger = some entry) (busy : i.phase ≠ .finished)
      (full : ¬ i.pending.length < i.config.maxPendingTriggers) :
      TriggersTo i trigger j (i, j.report (.queueFull i.owner trigger))

theorem TriggersTo.trigger_eq {i : Instance τ} {trigger : Trigger} {j : Journal}
    {result : Instance τ × Journal} (fires : i.TriggersTo trigger j result) :
    i.trigger trigger j = result := by
  cases fires with
  | unloaded absent => rw [Instance.trigger, absent]
  | entryless stored missing => simp only [Instance.trigger, stored, missing]
  | start stored found ended => simp only [Instance.trigger, stored, found, if_pos ended]
  | queue stored found busy room =>
    simp only [Instance.trigger, stored, found, if_neg busy, if_pos room]
  | refuse stored found busy full =>
    simp only [Instance.trigger, stored, found, if_neg busy, if_neg full]

/-- A rule applies to every trigger, and it says what happens. -/
theorem triggersTo_trigger (i : Instance τ) (trigger : Trigger) (j : Journal) :
    i.TriggersTo trigger j (i.trigger trigger j) := by
  have applies : ∃ result, i.TriggersTo trigger j result := by
    cases stored : i.script with
    | none => exact ⟨_, .unloaded stored⟩
    | some script =>
      cases found : script.program.entries.get trigger with
      | none => exact ⟨_, .entryless stored found⟩
      | some entry =>
        by_cases ended : i.phase = .finished
        · exact ⟨_, .start stored found ended⟩
        · by_cases room : i.pending.length < i.config.maxPendingTriggers
          · exact ⟨_, .queue stored found ended room⟩
          · exact ⟨_, .refuse stored found ended room⟩
  obtain ⟨result, fires⟩ := applies
  rw [fires.trigger_eq]
  exact fires

/-- Settling a turn decides on the phase, the next address and the queue, and on nothing else. -/
theorem settle_eq (i : Instance τ) (script : Script) (pace : Pace) (m : Machine τ) :
    ∃ phase pc pending, i.settle script pace m = { i with
      phase
      machine := { m with pc }
      pending } := by
  unfold settle
  cases pace with
  | suspended => exact ⟨_, _, _, rfl⟩
  | finished => cases nextPending? script i.pending <;> exact ⟨_, _, _, rfl⟩

theorem config_settle (i : Instance τ) (script : Script) (pace : Pace) (m : Machine τ) :
    (i.settle script pace m).config = i.config := by
  obtain ⟨_, _, _, settled⟩ := i.settle_eq script pace m
  rw [settled]

theorem script_settle (i : Instance τ) (script : Script) (pace : Pace) (m : Machine τ) :
    (i.settle script pace m).script = i.script := by
  obtain ⟨_, _, _, settled⟩ := i.settle_eq script pace m
  rw [settled]

theorem globals_settle (i : Instance τ) (script : Script) (pace : Pace) (m : Machine τ) :
    (i.settle script pace m).machine.globals = m.globals := by
  obtain ⟨_, _, _, settled⟩ := i.settle_eq script pace m
  rw [settled]

theorem bound_settle (i : Instance τ) (script : Script) (pace : Pace) (m : Machine τ) :
    (i.settle script pace m).machine.bound = m.bound := by
  obtain ⟨_, _, _, settled⟩ := i.settle_eq script pace m
  rw [settled]

theorem commands_settle (i : Instance τ) (script : Script) (pace : Pace) (m : Machine τ) :
    (i.settle script pace m).machine.commands = m.commands := by
  obtain ⟨_, _, _, settled⟩ := i.settle_eq script pace m
  rw [settled]

variable [Elapsed τ]

/-- An update changes nothing unless an execution is running or paused; then it takes a turn and
settles how that ends. -/
theorem update_cases (i : Instance τ) (frame : τ) :
    ((i.phase = .unloaded ∨ i.phase = .finished ∨ i.script = none) ∧
        ∀ j, i.update frame j = (i, j)) ∨
      (i.phase = .running ∨ i.phase = .suspended) ∧ ∃ script, i.script = some script ∧
        ∀ j, i.update frame j =
          (i.settle script
              (i.machine.resume script.program frame i.config.maxStepsPerResume j).1
              (i.machine.resume script.program frame i.config.maxStepsPerResume j).2.1,
            (i.machine.resume script.program frame i.config.maxStepsPerResume j).2.2) := by
  cases phase : i.phase with
  | unloaded | finished => exact .inl ⟨by simp, fun j => by simp only [Instance.update, phase]⟩
  | running | suspended =>
    cases stored : i.script with
    | none => exact .inl ⟨by simp, fun j => by simp only [Instance.update, phase, stored]⟩
    | some script =>
      exact .inr ⟨by simp, script, rfl, fun j => by simp only [Instance.update, phase, stored]⟩

end Instance

end NodeScript
