import Mathlib.Logic.Function.Iterate
import NodeScript.Proofs.Execution.Steps

/-!
Effects depend neither on the frame rate nor on how long a turn may be. With the time left out of
account that pauses have lasted, an execution takes one course, which every turn follows for some
instructions; so of the effects of two executions that start alike, one list is a prefix of the
other.
-/
namespace NodeScript

/-- A measure of time by which every pause that has been entered is over. -/
structure Timeless

instance : Elapsed Timeless := ⟨fun _ _ => ⟨⟩, fun _ _ => true⟩

namespace Journal

/-- The journal without its diagnostics. -/
def quiet (j : Journal) : Journal := ⟨j.effects.toArray⟩

@[simp] theorem effects_quiet (j : Journal) : j.quiet.effects = j.effects := by
  simp [quiet, effects]

theorem quiet_congr {j k : Journal} (same : j.effects = k.effects) : j.quiet = k.quiet := by
  rw [quiet, quiet, same]

theorem quiet_add (j : Journal) (entry : Entry) : (j.quiet.add entry).quiet = (j.add entry).quiet :=
  quiet_congr (by rw [effects_add, effects_add, effects_quiet])

end Journal

/-- Where an execution stands, as far as what it will do depends on it. -/
structure Course where
  machine : Machine Timeless
  journal : Journal

namespace Machine

variable {τ : Type}

/-- The course of an execution, with any pause about to be over. -/
def course (m : Machine τ) (j : Journal) : Course := ⟨{ m with slept := some ⟨⟩ }, j.quiet⟩

@[simp] theorem course_effects (m : Machine τ) (j : Journal) :
    (m.course j).journal.effects = j.effects := j.effects_quiet

theorem effects_eq {m m' : Machine τ} {j j' : Journal} (same : m.course j = m'.course j') :
    j.effects = j'.effects := by
  rw [← course_effects m, same, course_effects]

theorem globals_eq {m m' : Machine τ} {j j' : Journal} (same : m.course j = m'.course j') :
    m.globals = m'.globals := congrArg (·.machine.globals) same

end Machine

def Step.course {τ : Type} : Step τ → Course
  | .next pc m j => { m with pc := some pc }.course j
  | .stop _ m j => m.course j

/-- An instruction leads to a point of a course, and does not stop there unless that is the end. -/
def Step.Goes {τ : Type} (further : Course) : Step τ → Prop
  | .next pc m j => { m with pc := some pc }.course j = further
  | .stop pace m j => pace = .finished ∧ m.course j = further

theorem Step.Goes.course_eq {τ : Type} {further : Course} {step : Step τ}
    (goes : step.Goes further) : step.course = further := by
  cases step with
  | next => exact goes
  | stop => exact goes.2

/-- One instruction further, if the execution has not ended. -/
def Course.advance (program : Program) (c : Course) : Course :=
  match c.machine.pc with
  | none => c
  | some pc => (Machine.step program (⟨⟩ : Timeless) pc c.machine c.journal).course

namespace Machine

variable {τ : Type} [Elapsed τ]

/-- The instruction is a pause that lasts through the frame. -/
def Pauses (program : Program) (frame : τ) (pc : Addr) (m : Machine τ) : Prop :=
  ∃ duration, program.code[pc.toNat]? = some (.sleep duration) ∧
    ∀ before, m.slept = some before →
      Elapsed.reaches (Elapsed.add before frame) (m.read duration) = false

/-- The time spent in a pause after one more frame. -/
def asleep (frame : τ) (m : Machine τ) : τ := m.slept.elim frame (Elapsed.add · frame)

variable {program : Program} {frame : τ} {pc : Addr} {m : Machine τ}

theorem Pauses.step_eq (pauses : Pauses program frame pc m) (j : Journal) :
    step program frame pc m j =
      .stop .suspended { m with pc := some pc, slept := some (m.asleep frame) } j := by
  obtain ⟨duration, found, short⟩ := pauses
  cases slept : m.slept with
  | none =>
    rw [asleep, slept]
    exact (StepsTo.enter found slept).step_eq
  | some before =>
    rw [asleep, slept]
    exact (StepsTo.wait found slept (by simp [short before slept])).step_eq

/-- Any other instruction goes one further on the course of the execution, and if it does not lead
on, the execution ends there. -/
theorem StepsTo.goes {j : Journal} {result : Step τ} (steps : StepsTo program frame pc m j result)
    (going : ¬ Pauses program frame pc m) :
    result.Goes (({ m with pc := some pc }.course j).advance program) := by
  have kept {m : Machine Timeless} : Course.mk m j.quiet = ⟨m, j.quiet.quiet⟩ :=
    congrArg _ (Journal.quiet_congr j.effects_quiet).symm
  have added {m : Machine Timeless} (entry : Entry) :
      Course.mk m (j.add entry).quiet = ⟨m, (j.quiet.add entry).quiet⟩ :=
    congrArg _ (Journal.quiet_add j entry).symm
  have reads (operand : Operand) :
      ({ m with pc := some pc, slept := some ⟨⟩ } : Machine Timeless).read operand =
        m.read operand := by
    cases operand <;> rfl
  -- On the course the same rule applies, to the machine that is about to wake.
  have further {after : Step Timeless}
      (same : StepsTo program ⟨⟩ pc { m with pc := some pc, slept := some ⟨⟩ } j.quiet after) :
      ({ m with pc := some pc }.course j).advance program = after.course :=
    congrArg Step.course same.step_eq
  cases steps with
  | outside missing => exact further (.outside missing) ▸ ⟨rfl, added _⟩
  | unroomy found beyond => exact further (.unroomy found beyond) ▸ ⟨rfl, added _⟩
  | setLocal found room => exact further (.setLocal found room) ▸ kept
  | @enter duration found fresh => exact absurd ⟨duration, found, by simp [fresh]⟩ going
  | @wait duration before found slept short =>
    refine absurd ⟨duration, found, fun time spent => ?_⟩ going
    obtain rfl := Option.some.inj (slept.symm.trans spent)
    exact eq_false_of_ne_true short
  | wake found => exact further (.wake found rfl rfl) ▸ kept
  | deleteObject found => exact further (.deleteObject found) ▸ added _
  | sendEvent found issued => exact further (.sendEvent found issued) ▸ added _
  | @call function destination argument f found linked =>
    have same := Journal.call_congr j.effects_quiet f (m.read argument).toUInt64.toUInt32
    rw [← same]
    exact further (.call found linked) ▸ added _
  | miss found unlinked => exact further (.miss found unlinked) ▸ added _
  | goOn found holds => exact further (.goOn found (by rwa [reads, reads])) ▸ kept
  | branch found fails => exact further (.branch found (by rwa [reads, reads])) ▸ kept
  | again found below => exact further (.again found (by rwa [reads])) ▸ kept
  | leave found full => exact further (.leave found (by rwa [reads])) ▸ kept
  | jump found => exact further (.jump found) ▸ kept
  | finish found => exact further (.finish found) ▸ ⟨rfl, kept⟩

/-- An instruction waits, or goes one further on the course of the execution. -/
theorem StepsTo.course {j : Journal} {result : Step τ}
    (steps : StepsTo program frame pc m j result) :
    result.course = { m with pc := some pc }.course j ∨
      result.course = ({ m with pc := some pc }.course j).advance program := by
  by_cases pauses : Pauses program frame pc m
  · rw [← steps.step_eq, pauses.step_eq j]
    exact .inl rfl
  · exact .inr (steps.goes pauses).course_eq

/-- A turn follows the course of the execution. -/
theorem course_run (program : Program) (frame : τ) (budget steps : Nat) (pc : Addr)
    (m : Machine τ) (j : Journal) :
    ∃ n, (run program frame budget steps pc m j).2.1.course
        (run program frame budget steps pc m j).2.2 =
      (Course.advance program)^[n] ({ m with pc := some pc }.course j) := by
  fun_induction run program frame budget steps pc m j with
  | case1 pc m j => exact ⟨0, congrArg (Course.mk _) (Journal.quiet_congr (j.effects_report _))⟩
  | case2 steps pc m j pc' m' j' next ih =>
    obtain ⟨n, followed⟩ := ih
    rcases (stepsTo_iff.mpr next).course with waited | advanced
    · exact ⟨n, followed.trans (congrArg _ waited)⟩
    · exact ⟨n + 1, followed.trans (congrArg _ advanced)⟩
  | case3 steps pc m j pace m' j' stop =>
    rcases (stepsTo_iff.mpr stop).course with waited | advanced
    · exact ⟨0, waited⟩
    · exact ⟨1, advanced⟩

/-- A turn that begins with anything but a pause gets at least one instruction further. -/
theorem course_run_of_going (going : ¬ Pauses program frame pc m) (budget steps : Nat)
    (j : Journal) :
    ∃ n, (run program frame budget (steps + 1) pc m j).2.1.course
        (run program frame budget (steps + 1) pc m j).2.2 =
      (Course.advance program)^[n + 1] ({ m with pc := some pc }.course j) := by
  rw [run]
  cases result : step program frame pc m j with
  | next pc' m' j' =>
    have goes := (stepsTo_iff.mpr result).goes going
    obtain ⟨n, followed⟩ := course_run program frame budget steps pc' m' j'
    exact ⟨n, followed.trans (congrArg _ goes)⟩
  | stop pace m' j' => exact ⟨0, ((stepsTo_iff.mpr result).goes going).2⟩

theorem pc_run {program : Program} {frame : τ} {budget steps : Nat} {pc : Addr} {m : Machine τ}
    {j : Journal} (ended : (run program frame budget steps pc m j).1 = .finished) :
    (run program frame budget steps pc m j).2.1.pc = none := by
  fun_induction run program frame budget steps pc m j with
  | case1 pc m j => cases ended
  | case2 steps pc m j pc' m' j' next ih => exact ih ended
  | case3 steps pc m j pace m' j' stop => exact (stepsTo_iff.mpr stop).orderly.2 ended

theorem course_resume (program : Program) (frame : τ) (budget : Nat) (m : Machine τ)
    (j : Journal) :
    (∃ n, (m.resume program frame budget j).2.1.course (m.resume program frame budget j).2.2 =
      (Course.advance program)^[n] (m.course j)) ∧
      ((m.resume program frame budget j).1 = .finished →
        (m.resume program frame budget j).2.1.pc = none) := by
  unfold resume
  cases under : m.pc with
  | none => exact ⟨⟨0, rfl⟩, fun _ => under⟩
  | some pc =>
    have here : { m with pc := some pc } = m := by rw [← under]
    have followed := course_run program frame budget budget pc m j
    rw [here] at followed
    exact ⟨followed, pc_run⟩

end Machine

namespace Course

variable {program : Program}

/-- The effects of an execution only grow. -/
theorem effects_advance (c : Course) :
    c.journal.effects <+: (c.advance program).journal.effects := by
  unfold advance
  cases c.machine.pc with
  | none => exact List.prefix_refl _
  | some pc =>
    dsimp only
    cases result : Machine.step program ⟨⟩ pc c.machine c.journal with
    | next pc' m j =>
      exact j.effects_quiet.symm ▸ (Machine.stepsTo_iff.mpr result).orderly.effects
    | stop pace m j =>
      exact j.effects_quiet.symm ▸ (Machine.stepsTo_iff.mpr result).orderly.1.effects

theorem effects_iterate (c : Course) (n : Nat) :
    c.journal.effects <+: ((advance program)^[n] c).journal.effects := by
  induction n with
  | zero => exact List.prefix_refl _
  | succ n ih =>
    rw [Function.iterate_succ_apply']
    exact ih.trans (effects_advance _)

theorem iterate_of_ended {c : Course} (ended : c.machine.pc = none) (n : Nat) :
    (advance program)^[n] c = c := by
  have fixed : c.advance program = c := by simp only [advance, ended]
  exact Function.iterate_fixed fixed n

/-- Of two points on one course, the earlier one has no effects that the later one has not, and is
the later one if it is the end. -/
theorem before {c first second : Course} {m n : Nat}
    (reached : first = (advance program)^[m] c) (reached' : second = (advance program)^[n] c)
    (order : m ≤ n) :
    first.journal.effects <+: second.journal.effects ∧
      (first.machine.pc = none → first = second) := by
  obtain ⟨later, rfl⟩ := Nat.exists_eq_add_of_le order
  rw [Nat.add_comm, Function.iterate_add_apply, ← reached] at reached'
  subst reached'
  exact ⟨effects_iterate first later, fun ended => (iterate_of_ended ended later).symm⟩

end Course

namespace Instance

variable {τ : Type} {table : Table} {registry : Registry} {index : Nat} {script : Script}

/-- An instance whose execution has followed a course from a start on, with nothing else to do. -/
structure Follows (script : Script) (start : Course) (i : Instance τ) (j : Journal) : Prop where
  stored : i.script = some script
  pending : i.pending = []
  ended : i.phase = .finished → i.machine.pc = none
  course : ∃ n, i.machine.course j = (Course.advance script.program)^[n] start

/-- Where an execution starts depends on nothing that came before but the effects. -/
theorem bind_course (script : Script) (registry : Registry) {first second : Instance τ}
    (owner : first.owner = second.owner) {config config' : Config}
    (factor : config.stackSafetyFactor = config'.stackSafetyFactor)
    {j k : Journal} (same : j.effects = k.effects) :
    (first.bind script registry config j).1.machine.course
        (first.bind script registry config j).2 =
      (second.bind script registry config' k).1.machine.course
        (second.bind script registry config' k).2 := by
  have effective : config.effectiveFactor = config'.effectiveFactor := by
    rw [Config.effectiveFactor, Config.effectiveFactor, factor]
  simp only [bind, Machine.course, owner, effective, Course.mk.injEq, true_and]
  exact Journal.quiet_congr (by rw [Journal.effects_reportAll, Journal.effects_reportAll, same])

/-- Loading binds the script at the index. -/
theorem load_eq (i : Instance τ) (table : Table) (registry : Registry) (index : Nat)
    (config : Config) (j : Journal) :
    ∃ k : Journal, k.effects = j.effects ∧
      i.load table registry index config j = i.bind (table.scriptAt index) registry config k := by
  unfold load Table.scriptAt
  cases table.get? index with
  | some script => exact ⟨j, rfl, rfl⟩
  | none => exact ⟨_, j.effects_report _, rfl⟩

theorem Follows.loaded (first second : Instance τ) (owner : first.owner = second.owner)
    (config config' : Config) (factor : config.stackSafetyFactor = config'.stackSafetyFactor)
    (j : Journal) :
    Follows (table.scriptAt index)
      ((first.load table registry index config j).1.machine.course
        (first.load table registry index config j).2)
      (second.load table registry index config' j).1
      (second.load table registry index config' j).2 := by
  obtain ⟨k, same, bound⟩ := load_eq first table registry index config j
  obtain ⟨k', same', bound'⟩ := load_eq second table registry index config' j
  rw [bound, bound']
  have start := bind_course (table.scriptAt index) registry owner factor (same.trans same'.symm)
  exact ⟨rfl, rfl, nofun, 0, start.symm⟩

theorem Follows.settle {start : Course} {i : Instance τ} {j k : Journal}
    (follows : Follows script start i j) {pace : Pace} {m : Machine τ}
    (course : ∃ n, m.course k = (Course.advance script.program)^[n] start)
    (ended : pace = .finished → m.pc = none) : Follows script start (i.settle script pace m) k := by
  cases pace with
  | suspended => exact ⟨follows.stored, follows.pending, nofun, course⟩
  | finished =>
    simp only [Instance.settle, follows.pending, nextPending?]
    exact ⟨follows.stored, rfl, fun _ => ended rfl, course⟩

variable [Elapsed τ]

theorem Follows.update {start : Course} {i : Instance τ} {j : Journal}
    (follows : Follows script start i j) (frame : τ) :
    Follows script start (i.update frame j).1 (i.update frame j).2 := by
  obtain ⟨⟨m, turn⟩, ended⟩ := Machine.course_resume script.program frame
    i.config.maxStepsPerResume i.machine j
  obtain ⟨n, course⟩ := follows.course
  rw [course, ← Function.iterate_add_apply] at turn
  rcases i.update_cases frame with ⟨-, same⟩ | ⟨-, other, stored, turns⟩
  · rw [same]
    exact follows
  · obtain rfl := Option.some.inj (follows.stored.symm.trans stored)
    rw [turns]
    exact follows.settle ⟨_, turn⟩ ended

/-- Updates follow the course of the execution. -/
theorem Follows.updates {start : Course} {i : Instance τ} {j : Journal}
    (follows : Follows script start i j) (frames : List τ) :
    Follows script start (i.follow table registry index (frames.map .update) j).1
      (i.follow table registry index (frames.map .update) j).2 := by
  induction frames generalizing i j with
  | nil => exact follows
  | cons frame rest ih => exact ih (follows.update frame)

end Instance

/-- What a script does depends neither on the frame rate nor on how many steps a turn may have.
However two instances of one object are driven that have been loaded alike and get no triggers, of
their effects one list is a prefix of the other, and if both finish, their effects and their globals
are the same. -/
theorem effects_independent {τ : Type} [Elapsed τ] (table : Table) (registry : Registry)
    (index : Nat) (first second : Instance τ) (owner : first.owner = second.owner)
    (config config' : Config) (factor : config.stackSafetyFactor = config'.stackSafetyFactor)
    (frames frames' : List τ) (j : Journal) :
    let run := first.follow table registry index (.load config :: frames.map .update) j
    let run' := second.follow table registry index (.load config' :: frames'.map .update) j
    (run.2.effects <+: run'.2.effects ∨ run'.2.effects <+: run.2.effects) ∧
      (run.1.phase = .finished → run'.1.phase = .finished →
        run.2.effects = run'.2.effects ∧ run.1.machine.globals = run'.1.machine.globals) := by
  intro run run'
  have one : Instance.Follows _ _ run.1 run.2 :=
    (Instance.Follows.loaded first first rfl config config rfl j).updates frames
  have other : Instance.Follows _ _ run'.1 run'.2 :=
    (Instance.Follows.loaded first second owner config config' factor j).updates frames'
  obtain ⟨m, reached⟩ := one.course
  obtain ⟨n, reached'⟩ := other.course
  rcases Nat.le_total m n with order | order
  · obtain ⟨less, equal⟩ := Course.before reached reached' order
    rw [Machine.course_effects, Machine.course_effects] at less
    refine ⟨.inl less, fun finished _ => ?_⟩
    have same := equal (one.ended finished)
    exact ⟨Machine.effects_eq same, Machine.globals_eq same⟩
  · obtain ⟨less, equal⟩ := Course.before reached' reached order
    rw [Machine.course_effects, Machine.course_effects] at less
    refine ⟨.inr less, fun _ finished => ?_⟩
    have same := (equal (other.ended finished)).symm
    exact ⟨Machine.effects_eq same, Machine.globals_eq same⟩

/-- Two calls of a function with a pause after each, and then an event with the last result. -/
def Program.rounds : Program :=
  { code := #[.loop 1 2 4, .call 2 (.global 0) 0, .sleep (.constant 5), .jump 0,
      .sendEvent (.constant 0) (.constant 3) (.global 0), .finish]
    entries := ⟨some 0, none, none⟩
    globals := #[⟨"result", .number, 1⟩, ⟨"counter", .counter, 0⟩,
      ⟨"f", .function 0xF, 0⟩]
    maxLocals := 0 }

/-- Turns of ten thousand steps with frames of five milliseconds, and turns of two steps with frames
of two milliseconds. -/
theorem effects_independent_rounds :
    let table : Table := ⟨[⟨5, "rounds", "script_rounds", .rounds, 0, ""⟩]⟩
    let registry := Registry.empty.register 0xF fun earlier argument =>
      argument.toInt32 + Int32.ofNat earlier.length + 1
    let run := (Instance.new 7).follow table registry 0
      (.load .standard :: (List.replicate 6 (⟨Format.double.ofNat 5⟩ : Millis)).map .update) .empty
    let run' := (Instance.new 7).follow table registry 0
      (.load ⟨2, 0, 2⟩ :: (List.replicate 20 (⟨Format.double.ofNat 2⟩ : Millis)).map .update) .empty
    run.2.effects = [.call 0 0xF 1, .call 0 0xF 2,
        .command (.sendEvent 7 7 3 4)] ∧
      run.2.effects = run'.2.effects ∧ run.1.machine.globals = run'.1.machine.globals := by
  intro table registry run run'
  have independent := effects_independent table registry 0 (.new 7) (.new 7) rfl .standard
    ⟨2, 0, 2⟩ rfl (List.replicate 6 ⟨Format.double.ofNat 5⟩)
    (List.replicate 20 (⟨Format.double.ofNat 2⟩ : Millis)) .empty
  exact ⟨by decide +kernel, independent.2 (by decide +kernel) (by decide +kernel)⟩

end NodeScript
