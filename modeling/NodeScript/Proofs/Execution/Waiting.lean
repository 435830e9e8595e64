import Mathlib.Algebra.Field.Rat
import Mathlib.Algebra.Order.Ring.NNRat
import Mathlib.Algebra.Order.Ring.WithTop
import NodeScript.Proofs.Execution.Loops

/-!
Pauses. An execution that comes upon a pause stays there until the frames from that one on add up
to its duration, and nothing else of the instance changes in the meantime. One field of the machine
holds the time of all pauses, so it matters that it is empty whenever one is entered.

The machine adds times up as the type of times does. What is said of durations takes times that add
up exactly.
-/
namespace NodeScript

/-- Milliseconds that add up without rounding. A frame may take endless time. -/
abbrev ExactMillis := WithTop ℚ≥0

namespace ExactMillis

instance : Elapsed ExactMillis where
  add a b := a + b
  reaches a duration := decide ((duration.toInt.toNat : ExactMillis) ≤ a)

/-- The length of a frame given in seconds. A negative length and no number are no time. -/
def ofFrame (seconds : Binary32) : ExactMillis :=
  let magnitude := seconds.clampedMagnitude
  let units : ℚ≥0 := Format.single.units magnitude
  let unitsPerOne : ℚ≥0 := Format.single.unitsPerOne
  if Format.single.infinity ≤ magnitude then ⊤ else (1000 * units / unitsPerOne : ℚ≥0)

theorem ofFrame_eq_zero {seconds : Binary32} (none : seconds.negative ∨ seconds.isNaN) :
    ofFrame seconds = 0 := by
  have clamped : seconds.clampedMagnitude = 0 := by
    unfold Binary.clampedMagnitude
    rw [if_pos (by simpa using none)]
  have nothing : Format.single.units 0 = 0 := by decide
  simp only [ofFrame, clamped, if_neg (show ¬ Format.single.infinity ≤ 0 by decide), nothing]
  simp

end ExactMillis

namespace Operation

variable {τ : Type}

/-- The frame that passes in an operation. -/
def frame? : Operation τ → Option τ
  | update frame => some frame
  | _ => none

/-- The frames that pass in operations. -/
def frames (operations : List (Operation τ)) : List τ := operations.filterMap frame?

end Operation

/-- No frame brings the time spent up to a duration. -/
def Elapsed.Short {τ : Type} [Elapsed τ] (duration : Int64) : τ → List τ → Prop
  | _, [] => True
  | time, frame :: rest =>
    Elapsed.reaches (Elapsed.add time frame) duration = false ∧
      Short duration (Elapsed.add time frame) rest

namespace ExactMillis

theorem reaches_iff (time : ExactMillis) (duration : Int64) :
    Elapsed.reaches time duration = true ↔ (duration.toInt.toNat : ExactMillis) ≤ time :=
  decide_eq_true_iff

theorem reaches_eq_false_iff (time : ExactMillis) (duration : Int64) :
    Elapsed.reaches time duration = false ↔ time < (duration.toInt.toNat : ExactMillis) :=
  decide_eq_false_iff_not.trans not_le

theorem foldl_add (time : ExactMillis) (frames : List ExactMillis) :
    frames.foldl Elapsed.add time = time + frames.sum := by
  induction frames generalizing time with
  | nil => simp
  | cons frame rest ih =>
    rw [List.foldl_cons, ih, List.sum_cons, ← add_assoc]
    rfl

/-- Times are not negative, so frames that fall short together fall short one by one. -/
theorem short_of_lt (duration : Int64) (time : ExactMillis) (frames : List ExactMillis)
    (less : frames = [] ∨ time + frames.sum < (duration.toInt.toNat : ExactMillis)) :
    Elapsed.Short duration time frames := by
  induction frames generalizing time with
  | nil => trivial
  | cons frame rest ih =>
    have total := less.resolve_left (List.cons_ne_nil frame rest)
    rw [List.sum_cons, ← add_assoc] at total
    have first : time + frame < (duration.toInt.toNat : ExactMillis) :=
      lt_of_le_of_lt le_self_add total
    exact ⟨(reaches_eq_false_iff _ duration).mpr first, ih _ (.inr total)⟩

end ExactMillis

namespace Machine

variable {τ : Type}

/-- What an operand reads depends on the storage alone. -/
theorem read_congr {m n : Machine τ} (globals : m.globals = n.globals)
    (locals : m.locals = n.locals) (operand : Operand) : m.read operand = n.read operand := by
  cases operand <;> simp only [read, globals, locals]

variable [Elapsed τ] {program : Program}

/-- Nothing has been slept where instructions lead. -/
theorem Moves.awake {frame : τ} {n : Nat} {pc pc' : Addr} {m m' : Machine τ} {j j' : Journal}
    (moves : Moves program frame n pc m j pc' m' j') (going : 0 < n)
    (here : m.slept.isSome → ∃ duration, program.code[pc.toNat]? = some (.sleep duration)) :
    m'.slept = none := by
  induction moves with
  | refl => exact absurd going (Nat.lt_irrefl 0)
  | @next n pc pc₁ pc₂ m m₁ m₂ j j₁ j₂ first rest ih =>
    have awake : m₁.slept = none := ((stepsTo_iff.mpr first).tidy here).2
    cases rest with
    | refl => exact awake
    | next => exact ih (Nat.succ_pos _) (by simp [awake])

/-- A turn that comes upon a pause which has not been entered ends there, with the time of its own
frame and no other. -/
theorem visits_pause (frame : τ) (budget steps : Nat) {pc : Addr} {m : Machine τ} {j : Journal}
    (here : m.slept.isSome → ∃ duration, program.code[pc.toNat]? = some (.sleep duration))
    {earlier later : List (Visited τ)} {visit : Visited τ} {duration : Operand}
    (split : visits program frame steps pc m j = earlier ++ visit :: later)
    (pause : program.code[visit.pc.toNat]? = some (.sleep duration))
    (first : earlier = [] → m.slept = none) :
    0 < steps ∧ later = [] ∧ ∃ k, run program frame budget steps pc m j =
      (.suspended, { visit.machine with pc := some visit.pc, slept := some frame }, k) := by
  obtain ⟨k, left, moves, rfl, rest⟩ := visits_split split
  have awake : visit.machine.slept = none := by
    cases earlier with
    | nil =>
      rw [List.length_nil] at moves
      cases moves
      exact first rfl
    | cons => exact moves.awake (Nat.succ_pos _) here
  have stops : step program frame visit.pc visit.machine k =
      .stop .suspended { visit.machine with pc := some visit.pc, slept := some frame } k :=
    (StepsTo.enter pause awake).step_eq
  rw [visits, stops] at rest
  refine ⟨by omega, (List.cons.inj rest).2.symm, k, ?_⟩
  rw [moves.run_add, run, stops]

end Machine

namespace Instance

variable {τ : Type}

/-- An instance in a pause, with the time spent there. -/
structure Waits (i : Instance τ) (script : Script) (pc : Addr) (duration : Operand) (time : τ) :
    Prop where
  suspended : i.phase = .suspended
  stored : i.script = some script
  here : i.machine.pc = some pc
  slept : i.machine.slept = some time
  pause : script.program.code[pc.toNat]? = some (.sleep duration)
  budget : 0 < i.config.maxStepsPerResume

namespace Waits

variable {i : Instance τ} {script : Script} {pc : Addr} {duration : Operand} {time : τ}

/-- A trigger does not disturb a pause. -/
theorem trigger (waits : i.Waits script pc duration time) (trigger : Trigger) (j : Journal) :
    (i.trigger trigger j).1.Waits script pc duration time ∧
      (i.trigger trigger j).1.machine = i.machine := by
  rcases i.trigger_cases trigger j with ⟨same, -⟩ | ⟨_, _, ⟨finished, -⟩ | ⟨_, _, queued⟩⟩
  · rw [same]
    exact ⟨waits, rfl⟩
  · cases waits.suspended.symm.trans finished
  · rw [queued]
    exact ⟨{ waits with }, rfl⟩

variable [Elapsed τ]

/-- In a frame that does not bring the time up to the duration nothing but that time changes. -/
theorem update (waits : i.Waits script pc duration time) (frame : τ) (j : Journal)
    (short : Elapsed.reaches (Elapsed.add time frame) (i.machine.read duration) = false) :
    i.update frame j =
      ({ i with machine := { i.machine with slept := some (Elapsed.add time frame) } }, j) := by
  obtain ⟨suspended, stored, here, slept, pause, budget⟩ := waits
  obtain ⟨steps, some_steps⟩ := Nat.exists_eq_succ_of_ne_zero (Nat.ne_of_gt budget)
  have stops : Machine.step script.program frame pc i.machine j =
      .stop .suspended
        { i.machine with pc := some pc, slept := some (Elapsed.add time frame) } j :=
    (Machine.StepsTo.wait pause slept (by simp [short])).step_eq
  simp only [Instance.update, suspended, stored, Machine.resume, here, some_steps,
    Machine.run, stops, settle]

/-- In a frame that brings the time up to the duration the execution goes on behind the pause. -/
theorem visited (waits : i.Waits script pc duration time) (frame : τ) (j : Journal)
    (enough : Elapsed.reaches (Elapsed.add time frame) (i.machine.read duration) = true) :
    i.visited j (.update frame) = ⟨pc, i.machine, some (pc + 1)⟩ ::
      Machine.visits script.program frame (i.config.maxStepsPerResume - 1) (pc + 1)
        { i.machine with slept := none } j := by
  obtain ⟨suspended, stored, here, slept, pause, budget⟩ := waits
  obtain ⟨steps, some_steps⟩ := Nat.exists_eq_succ_of_ne_zero (Nat.ne_of_gt budget)
  have goes : Machine.step script.program frame pc i.machine j =
      .next (pc + 1) { i.machine with slept := none } j :=
    (Machine.StepsTo.wake pause slept enough).step_eq
  simp only [Instance.visited, suspended, stored, Machine.turn, here, some_steps,
    Machine.visits, goes, Nat.succ_sub_one]

/-- As long as no frame brings the time up to the duration, the pause lasts, whatever else is done
with the instance but loading it anew. -/
theorem performAll (operations : List (Operation τ))
    (keep : ∀ operation ∈ operations, operation.config? = none) {i : Instance τ} {time : τ}
    (waits : i.Waits script pc duration time)
    (short : Elapsed.Short (i.machine.read duration) time (Operation.frames operations))
    (j : Journal) :
    let reached := (Instance.performAll operations i j).1
    reached.Waits script pc duration ((Operation.frames operations).foldl Elapsed.add time) ∧
      reached.machine.globals = i.machine.globals ∧ reached.machine.locals = i.machine.locals := by
  induction operations generalizing i time j with
  | nil => exact ⟨waits, rfl, rfl⟩
  | cons operation rest ih =>
    obtain ⟨first, others⟩ := List.forall_mem_cons.mp keep
    cases operation with
    | load | loadAsset => cases first
    | takeCommands =>
      have waits' : i.takeCommands.1.Waits script pc duration time := { waits with }
      exact ih others waits' short j
    | trigger trigger =>
      obtain ⟨waits', same⟩ := waits.trigger trigger j
      rw [← same] at short
      have later := ih others waits' short (i.trigger trigger j).2
      rw [same] at later
      exact later
    | update frame =>
      obtain ⟨short, shorter⟩ := short
      have updated := waits.update frame j short
      have waits' : (i.update frame j).1.Waits script pc duration (Elapsed.add time frame) := by
        rw [updated]
        exact { waits with slept := rfl }
      have later := ih others waits' (by rw [updated]; exact shorter) (i.update frame j).2
      rw [updated] at later
      rwa [Instance.performAll, perform, updated]

end Waits

variable [Elapsed τ]

/-- An update that comes upon a pause which has not been entered enters it and does no more. -/
theorem Consistent.update_pause {i : Instance τ} (consistent : i.Consistent) {script : Script}
    (stored : i.script = some script) (frame : τ) {j : Journal}
    {earlier later : List (Visited τ)} {visit : Visited τ} {duration : Operand}
    (split : i.visited j (.update frame) = earlier ++ visit :: later)
    (pause : script.program.code[visit.pc.toNat]? = some (.sleep duration))
    (first : earlier = [] → i.machine.slept = none) :
    let next := (i.update frame j).1
    later = [] ∧ next.machine =
        { visit.machine with pc := some visit.pc, slept := some frame } ∧
      next.Waits script visit.pc duration frame := by
  rcases consistent.update_cases frame j with
    ⟨rests, -⟩ | ⟨active, script', pace, m, k, stored', turn, -, -, outcome⟩
  · rcases rests with rests | rests <;> simp [Instance.visited, rests] at split
  · obtain rfl := Option.some.inj (stored.symm.trans stored')
    have turned : i.visited j (.update frame) =
        i.machine.turn script.program frame i.config.maxStepsPerResume j := by
      rcases active with active | active <;> simp only [Instance.visited, active, stored]
    rw [turned, Machine.turn] at split
    rw [Machine.resume] at turn
    cases next : i.machine.pc with
    | none => simp [next] at split
    | some pc =>
      have here := (consistent.atPause stored).here next
      rw [next] at split turn
      obtain ⟨budget, ended, k', run⟩ := Machine.visits_pause frame i.config.maxStepsPerResume
        i.config.maxStepsPerResume here split pause first
      cases run.symm.trans turn
      rcases outcome with ⟨-, updated⟩ | ⟨finished, -⟩ | ⟨finished, -⟩
      · rw [updated]
        exact ⟨ended, rfl, rfl, stored, rfl, rfl, pause, budget⟩
      · cases finished
      · cases finished

end Instance

/-- Waits for a while, and then for no time. -/
def Program.nap : Program :=
  { code := #[.sleep (.constant 30), .sleep (.constant 0), .finish]
    entries := ⟨some 0, some 0, none⟩, globals := #[], maxLocals := 0 }

end NodeScript
