import NodeScript.Proofs.Execution.Loops
import NodeScript.Proofs.Execution.Steps

/-!
Programs of which nothing is known. Whatever a program says, the machine stays within its storage
and its steps, and no number wraps around; an address or a frame slot that does not exist ends the
execution with one error and is without any other effect.
-/
namespace NodeScript

/-- Whether an entry tells of an error. -/
def Entry.isError : Entry → Bool
  | event reported => decide (reported.level = .error)
  | _ => false

/-- How many errors have been reported. -/
def Journal.errors (j : Journal) : Nat := j.entries.toList.countP Entry.isError

namespace Journal

theorem errors_add (j : Journal) (entry : Entry) :
    (j.add entry).errors = j.errors + if entry.isError then 1 else 0 := by
  simp [errors, add, List.countP_singleton]

theorem errors_add_harmless (j : Journal) {entry : Entry} (harmless : entry.isError = false) :
    (j.add entry).errors = j.errors := by
  rw [errors_add, harmless]
  rfl

theorem errors_report (j : Journal) {event : Event} (grave : event.level = .error) :
    (j.report event).errors = j.errors + 1 := by
  rw [report, errors_add, if_pos]
  exact decide_eq_true grave

end Journal

namespace Step

variable {τ : Type}

def journal : Step τ → Journal
  | next _ _ j | stop _ _ j => j

end Step

namespace Machine

variable {τ : Type}

/-- What is reported of an instruction that cannot be run, because it is not in the code or binds a
constant outside of the frame. -/
def fault? (program : Program) (pc : Addr) (m : Machine τ) : Option Event :=
  match program.code[pc.toNat]? with
  | none => some (.addressOutside pc)
  | some (.setLocal slot _) =>
    if slot.toNat < m.locals.size then none else some (.localOutside slot)
  | some _ => none

theorem level_of_fault {program : Program} {pc : Addr} {m : Machine τ} {event : Event}
    (fault : m.fault? program pc = some event) : event.level = .error := by
  unfold fault? at fault
  split at fault
  · rw [← Option.some.inj fault]
    rfl
  · split at fault
    · cases fault
    · rw [← Option.some.inj fault]
      rfl
  · cases fault

variable [Elapsed τ] {program : Program} {frame : τ} {pc : Addr} {m : Machine τ} {j : Journal}

/-- An instruction that cannot be run ends the execution and leaves the storage as it is. -/
theorem step_of_fault {event : Event} (fault : m.fault? program pc = some event) :
    step program frame pc m j = .stop .finished m.finish (j.report event) := by
  unfold fault? at fault
  split at fault
  · next missing =>
    rw [← Option.some.inj fault]
    exact (StepsTo.outside missing).step_eq
  · next slot value found =>
    split at fault
    · cases fault
    · next beyond =>
      rw [← Option.some.inj fault]
      exact (StepsTo.unroomy found beyond).step_eq
  · cases fault

/-- Errors are reported of instructions that cannot be run, and of no others. -/
theorem StepsTo.errors {result : Step τ} (steps : StepsTo program frame pc m j result) :
    result.journal.errors = j.errors + if (m.fault? program pc).isSome then 1 else 0 := by
  cases steps with
  | outside missing =>
    rw [fault?, missing]
    exact j.errors_report rfl
  | unroomy found beyond =>
    simp only [fault?, found, if_neg beyond]
    exact j.errors_report rfl
  | setLocal found room =>
    simp only [fault?, found, if_pos room]
    rfl
  | deleteObject found | sendEvent found | call found | miss found =>
    rw [fault?, found]
    exact j.errors_add_harmless rfl
  | enter found | wait found | wake found | goOn found | branch found | again found | leave found
  | jump found | finish found =>
    rw [fault?, found]
    rfl

theorem length_visits_le (steps : Nat) (pc : Addr) (m : Machine τ) (j : Journal) :
    (visits program frame steps pc m j).length ≤ steps := by
  induction steps generalizing pc m j with
  | zero => exact Nat.le_refl 0
  | succ steps ih =>
    rw [visits]
    cases step program frame pc m j with
    | next pc' m' j' => exact Nat.succ_le_succ (ih pc' m' j')
    | stop pace m' j' => exact Nat.succ_le_succ (Nat.zero_le steps)

/-- The storage keeps its size throughout a turn. -/
theorem shape_of_mem_visits {steps : Nat}
    (here : m.slept.isSome → ∃ duration, program.code[pc.toNat]? = some (.sleep duration))
    {visit : Visited τ} (member : visit ∈ visits program frame steps pc m j) :
    visit.machine.shape = m.shape := by
  induction steps generalizing pc m j with
  | zero => cases member
  | succ steps ih =>
    rw [visits] at member
    cases result : step program frame pc m j with
    | next pc' m' j' =>
      rw [result] at member
      obtain ⟨same, awake⟩ := (stepsTo_iff.mpr result).tidy here
      rcases List.mem_cons.mp member with rfl | later
      · rfl
      · exact (ih (by simp [awake]) later).trans same
    | stop pace m' j' =>
      rw [result] at member
      rw [List.mem_singleton.mp member]

/-- A turn reports as many errors as it visits instructions that cannot be run. -/
theorem errors_run (budget steps : Nat) (pc : Addr) (m : Machine τ) (j : Journal) :
    (run program frame budget steps pc m j).2.2.errors =
      j.errors + (visits program frame steps pc m j).countP fun visit =>
        (visit.machine.fault? program visit.pc).isSome := by
  induction steps generalizing pc m j with
  | zero => exact j.errors_add_harmless rfl
  | succ steps ih =>
    rw [run, visits]
    cases result : step program frame pc m j with
    | next pc' m' j' =>
      have first : j'.errors = _ := (stepsTo_iff.mpr result).errors
      dsimp only
      rw [ih, first, List.countP_cons, Nat.add_assoc, Nat.add_comm (List.countP _ _)]
    | stop pace m' j' =>
      have last : j'.errors = _ := (stepsTo_iff.mpr result).errors
      dsimp only
      rw [last, List.countP_singleton]

/-- No error is reported as long as instructions go on. -/
theorem Moves.errors {n : Nat} {pc' : Addr} {m' : Machine τ} {j' : Journal}
    (moves : Moves program frame n pc m j pc' m' j') : j'.errors = j.errors := by
  induction moves with
  | refl => rfl
  | @next n pc pc₁ pc₂ m m₁ m₂ j j₁ j₂ first rest ih =>
    cases fault : m.fault? program pc with
    | some event =>
      rw [step_of_fault fault] at first
      cases first
    | none =>
      have reported := (stepsTo_iff.mpr first).errors
      rw [fault] at reported
      exact ih.trans reported

/-- A turn that comes upon an instruction that cannot be run ends there. -/
theorem run_of_fault (budget : Nat) {steps : Nat} {earlier later : List (Visited τ)}
    {visit : Visited τ} {event : Event}
    (split : visits program frame steps pc m j = earlier ++ visit :: later)
    (fault : visit.machine.fault? program visit.pc = some event) :
    later = [] ∧ ∃ k, Moves program frame earlier.length pc m j visit.pc visit.machine k ∧
      run program frame budget steps pc m j =
        (.finished, visit.machine.finish, k.report event) := by
  obtain ⟨k, left, moves, rfl, rest⟩ := visits_split split
  rw [visits, step_of_fault fault] at rest
  refine ⟨(List.cons.inj rest).2.symm, k, moves, ?_⟩
  rw [moves.run_add, run, step_of_fault fault]

end Machine

namespace Visited

variable {τ : Type}

/-- What is reported of the instruction if it cannot be run. -/
def fault? (program : Program) (visit : Visited τ) : Option Event :=
  visit.machine.fault? program visit.pc

/-- No number wraps around: there is an address behind the instruction, and a loop that goes on has
counted one more. -/
structure Unwrapped (program : Program) (visit : Visited τ) : Prop where
  onward : (program.code[visit.pc.toNat]?).isSome → (visit.pc + 1).toNat = visit.pc.toNat + 1
  counted : ∀ counter bound exit,
    program.code[visit.pc.toNat]? = some (.loop counter bound exit) →
    visit.machine.read (.global counter) < Int64.ofNat bound.toNat →
    (visit.machine.read (.global counter) + 1).toInt =
      (visit.machine.read (.global counter)).toInt + 1

theorem unwrapped {program : Program} (addressable : program.code.size < UInt32.size)
    (visit : Visited τ) : visit.Unwrapped program := by
  constructor
  · intro found
    have inside : visit.pc.toNat < program.code.size := by simpa using found
    rw [UInt32.size] at addressable
    have one : (1 : UInt32).toNat = 1 := rfl
    rw [UInt32.toNat_add, one]
    omega
  · intro counter bound exit found below
    have word := bound.toNat_lt
    have least := (visit.machine.read (.global counter)).le_toInt
    rw [Int64.lt_iff_toInt_lt, Int64.toInt_ofNat_of_lt (by omega)] at below
    rw [Int64.toInt_add, show (1 : Int64).toInt = 1 from rfl, Int.bmod_def]
    omega

end Visited

namespace Instance

variable {τ : Type} {i : Instance τ} {script : Script}

/-- The execution of `before` is over in `i`: the trigger that has waited longest is next, and
without one the instance has finished. -/
def OverSince (i before : Instance τ) : Prop :=
  match before.pending with
  | [] => i.phase = .finished ∧ i.machine.pc = none ∧ i.pending = []
  | trigger :: rest => i.phase = .running ∧ i.machine.pc = before.entryOf? trigger ∧
      (before.entryOf? trigger).isSome ∧ i.pending = rest

theorem Consistent.overSince_settle (consistent : i.Consistent) (stored : i.script = some script)
    {m : Machine τ} (ended : m.pc = none) : (i.settle script .finished m).OverSince i := by
  unfold OverSince settle
  cases waiting : i.pending with
  | nil => exact ⟨rfl, ended, rfl⟩
  | cons trigger rest =>
    have queued := consistent.queued trigger (waiting ▸ List.mem_cons_self ..)
    obtain ⟨entry, entered⟩ := Option.isSome_iff_exists.mp queued
    have found := (entryOf?_loaded stored trigger).symm.trans entered
    simp only [nextPending?_cons found]
    exact ⟨trivial, entered.symm, queued, trivial⟩

theorem inForce_of_keep (operations : List (Operation τ))
    (keep : ∀ operation ∈ operations, operation.config? = none) (before : Config) :
    Operation.inForce operations before = before := by
  induction operations with
  | nil => rfl
  | cons operation rest ih =>
    obtain ⟨first, others⟩ := List.forall_mem_cons.mp keep
    rw [Operation.inForce, List.foldl_cons, first]
    exact ih others

variable [Elapsed τ]

/-- An update either runs nothing, and reports nothing, or visits what a turn of the execution under
way visits and settles how that ends. -/
theorem update_turn (stored : i.script = some script) (frame : τ) (j : Journal) :
    (i.visited j (.update frame) = [] ∧ (i.update frame j).2 = j) ∨
      ∃ entry pace m k, i.machine.pc = some entry ∧
        i.visited j (.update frame) =
          Machine.visits script.program frame i.config.maxStepsPerResume entry i.machine j ∧
        Machine.run script.program frame i.config.maxStepsPerResume i.config.maxStepsPerResume entry
          i.machine j = (pace, m, k) ∧
        i.update frame j = (i.settle script pace m, k) := by
  cases phase : i.phase with
  | unloaded | finished => exact .inl ⟨by simp only [visited, phase], by simp only [update, phase]⟩
  | running | suspended =>
    cases under : i.machine.pc with
    | none =>
      refine .inl ⟨by simp only [visited, phase, stored, Machine.turn, under], ?_⟩
      simp only [update, phase, stored, Machine.resume, under]
    | some entry =>
      refine .inr ⟨entry, _, _, _, rfl, ?_, rfl, ?_⟩
      · simp only [visited, phase, stored, Machine.turn, under]
      · simp only [update, phase, stored, Machine.resume, under]

/-- What is loaded and the size of the storage stay until the next loading. -/
theorem Consistent.shape_perform (consistent : i.Consistent) {operation : Operation τ}
    (keeps : operation.config? = none) (j : Journal) :
    (i.perform j operation).1.machine.shape = i.machine.shape ∧
      (i.perform j operation).1.script = i.script := by
  cases operation with
  | load | loadAsset => cases keeps
  | update frame =>
    rcases consistent.update_cases frame j with
      ⟨-, same⟩ | ⟨-, script, pace, m, k, stored, turn, shape, -, outcome⟩
    · rw [Instance.perform, same]
      exact ⟨rfl, rfl⟩
    · rw [Instance.perform]
      rcases outcome with ⟨-, paused⟩ | ⟨-, -, finished⟩ | ⟨-, _, _, _, -, -, started⟩
      · rw [paused]
        exact ⟨shape, rfl⟩
      · rw [finished]
        exact ⟨shape, rfl⟩
      · rw [started]
        exact ⟨shape, rfl⟩
  | trigger trigger =>
    rw [Instance.perform]
    rcases i.trigger_cases trigger j with ⟨same, -⟩ | ⟨_, _, ⟨_, started⟩ | ⟨_, _, queued⟩⟩
    · rw [same]
      exact ⟨rfl, rfl⟩
    · rw [started]
      exact ⟨rfl, rfl⟩
    · rw [queued]
      exact ⟨rfl, rfl⟩
  | takeCommands => exact ⟨rfl, rfl⟩

theorem Consistent.shape_performAll (consistent : i.Consistent) (operations : List (Operation τ))
    (keep : ∀ operation ∈ operations, operation.config? = none) (j : Journal) :
    (Instance.performAll operations i j).1.machine.shape = i.machine.shape ∧
      (Instance.performAll operations i j).1.script = i.script := by
  induction operations generalizing i j with
  | nil => exact ⟨rfl, rfl⟩
  | cons operation rest ih =>
    obtain ⟨first, others⟩ := List.forall_mem_cons.mp keep
    obtain ⟨shape, same⟩ := consistent.shape_perform first j
    obtain ⟨shape', same'⟩ := ih (consistent.perform operation j) others _
    exact ⟨shape'.trans shape, same'.trans same⟩

/-- An update is contained: it keeps to its steps and its storage, no number wraps around, and an
error is reported only of an instruction that cannot be run, which ends the execution and has no
other effect. -/
structure Contained (i : Instance τ) (script : Script) (frame : τ) (j : Journal) : Prop where
  length : (i.visited j (.update frame)).length ≤ i.config.maxStepsPerResume
  shape : ∀ visit ∈ i.visited j (.update frame), visit.machine.shape = i.machine.shape
  unwrapped : ∀ visit ∈ i.visited j (.update frame), visit.Unwrapped script.program
  errors : (i.update frame j).2.errors = j.errors +
    (i.visited j (.update frame)).countP fun visit => (visit.fault? script.program).isSome
  fault : ∀ earlier visit later event, i.visited j (.update frame) = earlier ++ visit :: later →
    visit.fault? script.program = some event →
    later = [] ∧ event.level = .error ∧
      (∃ entry k, i.machine.pc = some entry ∧
        Machine.Moves script.program frame earlier.length entry i.machine j visit.pc visit.machine
          k ∧ (i.update frame j).2 = k.report event) ∧
      (i.update frame j).2.errors = j.errors + 1 ∧
      (i.update frame j).1.OverSince i ∧
      (i.update frame j).1.machine.globals = visit.machine.globals ∧
      (i.update frame j).1.machine.commands = visit.machine.commands

theorem Consistent.contained (consistent : i.Consistent) (stored : i.script = some script)
    (addressable : script.program.code.size < UInt32.size) (frame : τ) (j : Journal) :
    i.Contained script frame j := by
  rcases i.update_turn stored frame j with
    ⟨nothing, quiet⟩ | ⟨entry, pace, m, k, under, visited, ran, settled⟩
  · refine ⟨?_, ?_, fun visit _ => visit.unwrapped addressable, ?_, ?_⟩
    · rw [nothing]
      exact Nat.zero_le _
    · rw [nothing]
      nofun
    · rw [nothing, quiet]
      rfl
    · intro earlier visit later event split
      rw [nothing] at split
      simp at split
  · have counted := @Machine.errors_run _ _ script.program frame
      i.config.maxStepsPerResume i.config.maxStepsPerResume entry i.machine j
    rw [ran, ← visited] at counted
    refine ⟨?_, ?_, fun visit _ => visit.unwrapped addressable, ?_, ?_⟩
    · rw [visited]
      exact Machine.length_visits_le _ _ _ _
    · rw [visited]
      exact fun visit => Machine.shape_of_mem_visits ((consistent.atPause stored).here under)
    · rw [settled]
      exact counted
    · intro earlier visit later event split fault
      rw [visited] at split
      obtain ⟨last, k', moves, ended⟩ :=
        Machine.run_of_fault i.config.maxStepsPerResume split fault
      rw [ran, Prod.mk.injEq, Prod.mk.injEq] at ended
      obtain ⟨rfl, rfl, rfl⟩ := ended
      have grave := Machine.level_of_fault fault
      rw [settled]
      refine ⟨last, grave, ⟨entry, k', under, moves, rfl⟩, ?_, ?_, ?_, ?_⟩
      · rw [k'.errors_report grave, moves.errors]
      · exact consistent.overSince_settle stored rfl
      · exact i.globals_settle script _ _
      · exact i.commands_settle script _ _

end Instance

/-- The machine survives any program. Whatever the program says, from its loading on the storage
keeps its size under any updates and triggers, and every update is contained. -/
theorem any_program_is_contained {τ : Type} [Elapsed τ] (i : Instance τ) (script : Script)
    (registry : Registry) (config : Config) (start : Journal) (operations : List (Operation τ))
    (keep : ∀ operation ∈ operations, operation.config? = none)
    (addressable : script.program.code.size < UInt32.size) :
    let loaded := i.bind script registry config start
    let reached := Instance.performAll operations loaded.1 loaded.2
    (reached.1.machine.globals.size = script.program.globals.size ∧
      reached.1.machine.bound.size = script.program.globals.size ∧
      reached.1.machine.locals.size =
        max (script.stackSize.toNat * config.effectiveFactor.toNat)
          script.program.maxLocals.toNat) ∧
    reached.1.config = config ∧
    ∀ frame, reached.1.Contained script frame reached.2 := by
  intro loaded reached
  have consistent : loaded.1.Consistent := Instance.consistent_bind i script registry config start
  obtain ⟨shape, stored⟩ := consistent.shape_performAll operations keep loaded.2
  have inForce : reached.1.config = config :=
    (Instance.config_performAll operations loaded.1 loaded.2).trans
      (Instance.inForce_of_keep operations keep config)
  have kept := consistent.performAll operations loaded.2
  simp only [Machine.shape, Prod.mk.injEq] at shape
  obtain ⟨-, globals, bound, locals⟩ := shape
  refine ⟨⟨?_, ?_, ?_⟩, inForce, fun frame => kept.contained stored addressable frame reached.2⟩
  · exact globals.trans (consistent.storage script rfl).1
  · exact bound.trans (consistent.storage script rfl).2.1
  · exact locals.trans Array.size_replicate

/-- Starts outside of its code, and binds a constant outside of its frame when an event comes. -/
def Program.wild : Program :=
  { code := #[.setLocal 9 5], entries := ⟨some 7, some 0, none⟩, globals := #[], maxLocals := 1 }

/-- Each of the two executions ends with an error at its first instruction. -/
theorem any_program_is_contained_wild :
    let script : Script := ⟨7, "wild", "script_wild", .wild, 0, ""⟩
    let loaded := (Instance.new 1 : Instance Millis).bind script .empty ⟨1, 1, 3⟩ .empty
    let waiting := Instance.performAll [.trigger .event] loaded.1 loaded.2
    let begun := Instance.performAll [.trigger .event, .update ⟨0⟩] loaded.1 loaded.2
    (waiting.1.Contained script ⟨0⟩ waiting.2 ∧
      (waiting.1.update ⟨0⟩ waiting.2).2 = waiting.2.report (.addressOutside 7) ∧
      (waiting.1.update ⟨0⟩ waiting.2).1.machine.pc = some 0) ∧
    (begun.1.Contained script ⟨0⟩ begun.2 ∧
      (begun.1.update ⟨0⟩ begun.2).2 = begun.2.report (.localOutside 9) ∧
      (begun.1.update ⟨0⟩ begun.2).1.phase = .finished) := by
  intro script loaded waiting begun
  have keep : ∀ operation ∈ ([.trigger .event] : List (Operation Millis)),
      operation.config? = none := by simp [Operation.config?]
  have keep' : ∀ operation ∈ ([.trigger .event, .update ⟨0⟩] : List (Operation Millis)),
      operation.config? = none := by simp [Operation.config?]
  obtain ⟨-, -, first⟩ := any_program_is_contained (.new 1 : Instance Millis) script .empty
    ⟨1, 1, 3⟩ .empty [.trigger .event] keep (by decide)
  obtain ⟨-, -, second⟩ := any_program_is_contained (.new 1 : Instance Millis) script .empty
    ⟨1, 1, 3⟩ .empty [.trigger .event, .update ⟨0⟩] keep' (by decide)
  exact ⟨⟨first ⟨0⟩, rfl, rfl⟩, ⟨second ⟨0⟩, rfl, rfl⟩⟩

end NodeScript
