import Mathlib.Data.List.Forall2
import NodeScript.Proofs.Binary.Order
import NodeScript.Proofs.Execution.Independence
import NodeScript.Proofs.Execution.Waiting

/-!
More time never holds a script up. Two executions of one script that started alike follow one
course. The one with the shorter frames stands behind the other on it, or beside it with no more
time spent in a pause, and an update of both keeps it there: where the first one catches up it is
only about to enter the pause in which the other has been waiting.
-/
namespace NodeScript

/-- Amounts of time whose order sums and comparisons keep. -/
class Elapsed.Ordered (τ : Type) [Elapsed τ] [Preorder τ] : Prop where
  add_mono {a a' b b' : τ} : a ≤ a' → b ≤ b' → Elapsed.add a b ≤ Elapsed.add a' b'
  le_add_left (a b : τ) : b ≤ Elapsed.add a b
  le_add_right (a b : τ) : a ≤ Elapsed.add a b
  reaches_mono {a b : τ} (duration : Int64) :
    a ≤ b → Elapsed.reaches a duration = true → Elapsed.reaches b duration = true

namespace ExactMillis

instance : Elapsed.Ordered ExactMillis where
  add_mono := add_le_add
  le_add_left _ _ := le_add_self
  le_add_right _ _ := le_self_add
  reaches_mono duration le reached :=
    (reaches_iff _ duration).mpr (((reaches_iff _ duration).mp reached).trans le)

theorem ofFrame_mono {seconds seconds' : Binary32} (le : seconds ≤ seconds') :
    ofFrame seconds ≤ ofFrame seconds' := by
  have magnitudes := Binary.clampedMagnitude_mono le
  unfold ofFrame
  dsimp only
  split
  · rw [if_pos (by omega)]
  · split
    · exact le_top
    · have units : (Format.single.units seconds.clampedMagnitude : ℚ≥0) ≤
          Format.single.units seconds'.clampedMagnitude :=
        Nat.cast_le.mpr (Format.units_mono magnitudes)
      exact WithTop.coe_le_coe.mpr
        (div_le_div_of_nonneg_right (mul_le_mul_of_nonneg_left units bot_le) bot_le)

end ExactMillis

namespace Millis

/-- What lies beyond infinity counts as infinity. -/
instance : Preorder Millis := Preorder.lift fun a => min a.magnitude Format.double.infinity

instance : Elapsed.Ordered Millis where
  add_mono left right := by
    have sums := Format.double.add_mono (by decide) left right
    rw [Format.add_min, Format.add_min] at sums
    exact min_le_min_right _ sums
  le_add_left a b := le_min (Format.add_comm .. ▸ Format.le_add (by decide) ..) (min_le_right ..)
  le_add_right a b := le_min (Format.le_add (by decide) ..) (min_le_right ..)
  reaches_mono {a b} duration le reached := by
    have finite : Format.double.ofNat duration.toInt.toNat ≤ Format.double.infinity :=
      Format.round_le_infinity ..
    have le : min a.magnitude Format.double.infinity ≤ min b.magnitude Format.double.infinity := le
    simp only [Elapsed.reaches, decide_eq_true_eq] at reached ⊢
    omega

theorem ofFrame_mono {seconds seconds' : Binary32} (le : seconds ≤ seconds') :
    ofFrame seconds ≤ ofFrame seconds' :=
  min_le_min_right _ (Format.mul_mono (by decide)
    (Format.convert_mono (by decide) (Binary.clampedMagnitude_mono le)) le_rfl)

end Millis

namespace Machine

variable {τ : Type}

@[simp] theorem course_report (m : Machine τ) (j : Journal) (event : Event) :
    m.course (j.report event) = m.course j :=
  congrArg (Course.mk _) (Journal.quiet_congr (j.effects_report event))

section

variable [Elapsed τ] {program : Program} {frame : τ} {pc : Addr} {m : Machine τ}

/-- What the next instruction does if it is not a pause that lasts. -/
theorem step_cases (going : ¬ Pauses program frame pc m)
    (here : m.slept.isSome → ∃ duration, program.code[pc.toNat]? = some (.sleep duration))
    (j : Journal) :
    (∃ pc' m' j', step program frame pc m j = .next pc' m' j' ∧
        { m' with pc := some pc' }.course j' = ({ m with pc := some pc }.course j).advance program ∧
        m'.slept = none) ∨
      ∃ m' j', step program frame pc m j = .stop .finished m' j' ∧
        m'.course j' = ({ m with pc := some pc }.course j).advance program ∧
        m'.pc = none ∧ m'.slept = none := by
  have steps := stepsTo_step program frame pc m j
  have goes := steps.goes going
  have tidy := steps.tidy here
  cases result : step program frame pc m j with
  | next pc' m' j' =>
    rw [result] at goes tidy
    exact .inl ⟨pc', m', j', rfl, goes, tidy.2⟩
  | stop pace m' j' =>
    rw [result] at goes tidy
    obtain ⟨rfl, course⟩ := goes
    exact .inr ⟨m', j', rfl, course, tidy.2.1, tidy.2.2⟩

end

variable [Preorder τ]

/-- No more time has been spent in a pause than in one that another machine has entered. -/
def SleepsWithin (m m' : Machine τ) : Prop :=
  ∀ time, m.slept = some time → ∃ more, m'.slept = some more ∧ time ≤ more

theorem SleepsWithin.of_awake {m : Machine τ} (awake : m.slept = none) (m' : Machine τ) :
    m.SleepsWithin m' := by
  intro time slept
  cases awake.symm.trans slept

/-- An execution stands behind another one on its course, or beside it with no more time spent in a
pause. -/
def Trails (program : Program) (m : Machine τ) (j : Journal) (m' : Machine τ) (j' : Journal) :
    Prop :=
  ∃ n, m'.course j' = (Course.advance program)^[n] (m.course j) ∧ (n = 0 → m.SleepsWithin m')

variable {program : Program} {m m' m'' : Machine τ} {j j' j'' : Journal}

theorem Trails.behind {n : Nat}
    (course : m'.course j' = (Course.advance program)^[n + 1] (m.course j)) :
    Trails program m j m' j' := ⟨n + 1, course, fun level => absurd level n.succ_ne_zero⟩

theorem Trails.refl (m : Machine τ) (j : Journal) : Trails program m j m j :=
  ⟨0, rfl, fun _ time slept => ⟨time, slept, le_rfl⟩⟩

theorem Trails.trans (first : Trails program m j m' j') (second : Trails program m' j' m'' j'') :
    Trails program m j m'' j'' := by
  obtain ⟨n, course, within⟩ := first
  obtain ⟨k, course', within'⟩ := second
  refine ⟨k + n, by rw [course', course, Function.iterate_add_apply], fun level time slept => ?_⟩
  obtain ⟨more, slept', le⟩ := within (by omega) time slept
  obtain ⟨most, slept'', le'⟩ := within' (by omega) more slept'
  exact ⟨most, slept'', le.trans le'⟩

/-- An execution that trails another has no effects that the other has not. -/
theorem Trails.effects (trails : Trails program m j m' j') : j.effects <+: j'.effects := by
  obtain ⟨n, course, -⟩ := trails
  have grown : (m.course j).journal.effects <+:
      ((Course.advance program)^[n] (m.course j)).journal.effects := Course.effects_iterate _ n
  rwa [← course, course_effects, course_effects] at grown

/-- An execution that trails another and has ended is at the end of the other one, too. -/
theorem Trails.course_eq (trails : Trails program m j m' j') (ended : m.pc = none) :
    m'.course j' = m.course j := by
  obtain ⟨n, course, -⟩ := trails
  rw [course]
  exact Course.iterate_of_ended ended n

variable [Elapsed τ] [Elapsed.Ordered τ] {frame frame' : τ} {pc : Addr}

/-- The time spent in a pause is no less after a longer frame. -/
theorem SleepsWithin.asleep_le (within : m.SleepsWithin m') (longer : frame ≤ frame') :
    m.asleep frame ≤ m'.asleep frame' := by
  unfold asleep
  cases slept : m.slept with
  | none =>
    cases m'.slept with
    | none => exact longer
    | some more => exact longer.trans (Elapsed.Ordered.le_add_left ..)
  | some time =>
    obtain ⟨more, slept', le⟩ := within time slept
    rw [slept']
    exact Elapsed.Ordered.add_mono le longer

/-- A turn leaves an execution behind. -/
theorem trails_run (frame : τ) (budget steps : Nat) (pc : Addr) (m : Machine τ) (j : Journal) :
    Trails program { m with pc := some pc } j (run program frame budget steps pc m j).2.1
      (run program frame budget steps pc m j).2.2 := by
  cases steps with
  | zero => exact ⟨0, course_report .., fun _ time slept => ⟨time, slept, le_rfl⟩⟩
  | succ steps =>
    by_cases pauses : Pauses program frame pc m
    · rw [run, pauses.step_eq j]
      refine ⟨0, rfl, fun _ time slept => ⟨_, rfl, ?_⟩⟩
      have spent : m.slept = some time := slept
      rw [asleep, spent]
      exact Elapsed.Ordered.le_add_right ..
    · obtain ⟨n, course⟩ := course_run_of_going pauses budget steps j
      exact .behind course

theorem trails_resume (frame : τ) (budget : Nat) (m : Machine τ) (j : Journal) :
    Trails program m j (m.resume program frame budget j).2.1
      (m.resume program frame budget j).2.2 := by
  unfold resume
  cases under : m.pc with
  | none => exact .refl m j
  | some pc =>
    have here : { m with pc := some pc } = m := by rw [← under]
    have behind : Trails program { m with pc := some pc } j _ _ :=
      trails_run frame budget budget pc m j
    rwa [here] at behind

/-- A pause that lasts through the longer frame lasts through the shorter one. -/
theorem Pauses.of_longer (pauses : Pauses program frame' pc m') (longer : frame ≤ frame')
    (within : m.SleepsWithin m') (reads : ∀ operand, m.read operand = m'.read operand) :
    Pauses program frame pc m := by
  obtain ⟨duration, found, short⟩ := pauses
  refine ⟨duration, found, fun time slept => eq_false_of_ne_true fun enough => ?_⟩
  obtain ⟨more, slept', le⟩ := within time slept
  rw [reads] at enough
  have passed := Elapsed.Ordered.reaches_mono _ (Elapsed.Ordered.add_mono le longer) enough
  exact Bool.false_ne_true ((short more slept').symm.trans passed)

/-- Executions that stand side by side: the one with the longer frame and the longer turn does not
fall behind. -/
theorem trails_run_level (longer : frame ≤ frame') (budget budget' : Nat) {steps steps' : Nat}
    (fewer : steps ≤ steps')
    (here : m.slept.isSome → ∃ duration, program.code[pc.toNat]? = some (.sleep duration))
    (here' : m'.slept.isSome → ∃ duration, program.code[pc.toNat]? = some (.sleep duration))
    (same : { m' with pc := some pc }.course j' = { m with pc := some pc }.course j)
    (within : m.SleepsWithin m') :
    Trails program (run program frame budget steps pc m j).2.1
      (run program frame budget steps pc m j).2.2
      (run program frame' budget' steps' pc m' j').2.1
      (run program frame' budget' steps' pc m' j').2.2 := by
  induction steps generalizing steps' pc m m' j j' with
  | zero =>
    have start : Trails program { m with pc := some pc } (j.report (.budgetSpent m.owner budget))
        { m' with pc := some pc } j' := ⟨0, by rw [course_report]; exact same, fun _ => within⟩
    exact start.trans (trails_run ..)
  | succ steps ih =>
    obtain ⟨steps', rfl⟩ := Nat.exists_eq_succ_of_ne_zero (Nat.ne_zero_of_lt fewer)
    by_cases pauses : Pauses program frame pc m
    · rw [run, pauses.step_eq]
      by_cases pauses' : Pauses program frame' pc m'
      · rw [run, pauses'.step_eq]
        refine ⟨0, same, fun _ time slept => ⟨_, rfl, ?_⟩⟩
        obtain rfl := Option.some.inj slept
        exact within.asleep_le longer
      · obtain ⟨n, course⟩ := course_run_of_going pauses' budget' steps' j'
        exact .behind (course.trans (congrArg _ same))
    · -- A pause that does not hold up the first one does not hold up the other either.
      have reads := read_congr (congrArg (·.machine.globals) same.symm)
        (congrArg (·.machine.locals) same.symm)
      have pauses' : ¬ Pauses program frame' pc m' := fun lasts =>
        pauses (lasts.of_longer longer within reads)
      rcases step_cases pauses here j with
        ⟨pc₁, m₁, j₁, next, course, awake⟩ | ⟨m₁, j₁, stop, course, -, awake⟩
      · rcases step_cases pauses' here' j' with
          ⟨pc₂, m₂, j₂, next', course', awake'⟩ | ⟨m₂, j₂, stop', course', ended, -⟩
        · have level := course'.trans ((congrArg _ same).trans course.symm)
          obtain rfl : pc₂ = pc₁ := Option.some.inj (congrArg (·.machine.pc) level)
          rw [run, next, run, next']
          exact ih (Nat.le_of_succ_le_succ fewer) (by simp [awake]) (by simp [awake']) level
            (.of_awake awake m₂)
        · have level := course'.trans ((congrArg _ same).trans course.symm)
          cases ended.symm.trans (congrArg (·.machine.pc) level)
      · obtain ⟨n, further⟩ := course_run_of_going pauses' budget' steps' j'
        rw [same, Function.iterate_succ_apply, ← course] at further
        rw [run, stop]
        exact ⟨n, further, fun _ => .of_awake awake _⟩

/-- An execution that trails another does not get past it in a turn that is no longer. The induction
is on how far it is behind. -/
theorem Trails.run (trails : Trails program { m with pc := some pc } j m' j')
    (here : m.slept.isSome → ∃ duration, program.code[pc.toNat]? = some (.sleep duration))
    (pause : m'.AtPause program) (longer : frame ≤ frame') (budget : Nat) {steps budget' : Nat}
    (fewer : steps ≤ budget') :
    Trails program (run program frame budget steps pc m j).2.1
      (run program frame budget steps pc m j).2.2
      (m'.resume program frame' budget' j').2.1 (m'.resume program frame' budget' j').2.2 := by
  have turn : Trails program m' j' (m'.resume program frame' budget' j').2.1
      (m'.resume program frame' budget' j').2.2 := trails_resume frame' budget' m' j'
  obtain ⟨n, course, within⟩ := trails
  induction n generalizing steps pc m j with
  | zero =>
    have under : m'.pc = some pc := congrArg (·.machine.pc) course
    have same : { m' with pc := some pc } = m' := by rw [← under]
    rw [resume, under]
    exact trails_run_level longer budget budget' fewer here (pause.here under)
      (same.symm ▸ course) (within rfl)
  | succ n ih =>
    cases steps with
    | zero =>
      rw [Machine.run]
      exact .trans (.behind (by rw [course_report]; exact course)) turn
    | succ steps =>
      by_cases pauses : Pauses program frame pc m
      · rw [Machine.run, pauses.step_eq]
        exact .trans (.behind course) turn
      · rw [Function.iterate_succ_apply] at course
        rcases step_cases pauses here j with
          ⟨pc₁, m₁, j₁, next, course₁, awake⟩ | ⟨m₁, j₁, stop, course₁, -, awake⟩
        · -- One nearer, and awake: the pause in which the other may be has yet to be entered.
          rw [Machine.run, next]
          rw [← course₁] at course
          exact ih (by simp [awake]) (Nat.le_of_succ_le fewer) course fun _ => .of_awake awake m'
        · rw [Machine.run, stop]
          rw [← course₁] at course
          exact .trans ⟨n, course, fun _ => .of_awake awake m'⟩ turn

theorem Trails.resume (trails : Trails program m j m' j') (pause : m.AtPause program)
    (pause' : m'.AtPause program) (longer : frame ≤ frame') (budget : Nat) :
    Trails program (m.resume program frame budget j).2.1 (m.resume program frame budget j).2.2
      (m'.resume program frame' budget j').2.1 (m'.resume program frame' budget j').2.2 := by
  rw [Machine.resume]
  cases under : m.pc with
  | none => exact trails.trans (trails_resume frame' budget m' j')
  | some pc =>
    have same : { m with pc := some pc } = m := by rw [← under]
    exact Trails.run (same.symm ▸ trails) (pause.here under) pause' longer budget le_rfl

end Machine

namespace Instance

variable {τ : Type} {script : Script} {i i' : Instance τ} {j j' : Journal}

/-- An instance with a script, and with no trigger that waits. -/
structure Untriggered (script : Script) (i : Instance τ) : Prop where
  consistent : i.Consistent
  stored : i.script = some script
  pending : i.pending = []

/-- The second run has all effects of the first one, and if that has finished, so has the second,
with the same globals and no other effects. -/
structure KeepsUp (run run' : Instance τ × Journal) : Prop where
  effects : run.2.effects <+: run'.2.effects
  finished : run.1.phase = .finished → run'.1.phase = .finished ∧
    run.1.machine.globals = run'.1.machine.globals ∧ run.2.effects = run'.2.effects

section

variable [Preorder τ]

/-- Two instances with one script, of which the first one trails the other. -/
structure Coupled (script : Script) (i : Instance τ) (j : Journal) (i' : Instance τ)
    (j' : Journal) : Prop where
  first : i.Untriggered script
  second : i'.Untriggered script
  config : i.config = i'.config
  trails : Machine.Trails script.program i.machine j i'.machine j'
  finished : i.phase = .finished → i'.phase = .finished

theorem Coupled.refl (untriggered : i.Untriggered script) (j : Journal) : Coupled script i j i j :=
  ⟨untriggered, untriggered, rfl, .refl i.machine j, id⟩

theorem Coupled.keepsUp (coupled : Coupled script i j i' j') : KeepsUp (i, j) (i', j') := by
  refine ⟨coupled.trails.effects, fun finished => ⟨coupled.finished finished, ?_⟩⟩
  have ended := (coupled.first.consistent.finished finished).1
  have same := coupled.trails.course_eq ended
  exact ⟨(Machine.globals_eq same).symm, (Machine.effects_eq same).symm⟩

end

variable [Elapsed τ]

theorem exists_untriggered {loading : Operation τ} (loads : loading.config?.isSome)
    (i : Instance τ) (j : Journal) : ∃ script, (i.perform j loading).1.Untriggered script := by
  obtain ⟨config, loads⟩ := Option.isSome_iff_exists.mp loads
  obtain ⟨script, registry, k, bound⟩ := i.perform_loads loads j
  rw [bound]
  exact ⟨script, consistent_bind .., rfl, rfl⟩

/-- An update is a turn of the machine. The instance has finished if nothing is under way
afterwards. -/
theorem Untriggered.update (untriggered : i.Untriggered script) (frame : τ) (j : Journal) :
    let turn := i.machine.resume script.program frame i.config.maxStepsPerResume j
    let next := i.update frame j
    next.1.Untriggered script ∧ next.1.machine = turn.2.1 ∧ next.2 = turn.2.2 ∧
      (next.1.phase = .finished ↔ turn.2.1.pc = none) := by
  obtain ⟨consistent, stored, pending⟩ := untriggered
  intro turn next
  have consistent' : next.1.Consistent := consistent.update frame j
  rcases consistent.update_cases frame j with
    ⟨rests, same⟩ | ⟨-, other, pace, m, k, stored', ran, -, left, outcome⟩
  · have finished : i.phase = .finished := by
      refine rests.resolve_left fun unloaded => ?_
      cases stored.symm.trans (consistent.unloaded.mp unloaded)
    have ended := (consistent.finished finished).1
    have idle : turn = (.finished, i.machine, j) := by simp only [turn, Machine.resume, ended]
    simp only [next, same, idle]
    exact ⟨⟨consistent, stored, pending⟩, trivial, trivial, by simp [finished, ended]⟩
  · obtain rfl := Option.some.inj (stored.symm.trans stored')
    have turned : turn = (pace, m, k) := ran
    rcases outcome with ⟨rfl, paused⟩ | ⟨rfl, -, finished⟩ | ⟨-, _, _, _, waiting, -⟩
    · have updated : next = ({ i with phase := .suspended, machine := m }, k) := paused
      obtain ⟨pc, under⟩ := Option.isSome_iff_exists.mp left.1
      rw [updated] at consistent' ⊢
      rw [turned]
      exact ⟨⟨consistent', stored, pending⟩, rfl, rfl, by simp [under]⟩
    · have updated : next = ({ i with phase := .finished, machine := m }, k) := finished
      rw [updated] at consistent' ⊢
      rw [turned]
      exact ⟨⟨consistent', stored, pending⟩, rfl, rfl, by simp [left.1]⟩
    · cases pending.symm.trans waiting

variable [Preorder τ] [Elapsed.Ordered τ]

theorem Coupled.update (coupled : Coupled script i j i' j') {frame frame' : τ}
    (longer : frame ≤ frame') :
    Coupled script (i.update frame j).1 (i.update frame j).2 (i'.update frame' j').1
      (i'.update frame' j').2 := by
  obtain ⟨first, machine, journal, finished⟩ := coupled.first.update frame j
  obtain ⟨second, machine', journal', finished'⟩ := coupled.second.update frame' j'
  have trails := coupled.trails.resume (coupled.first.consistent.atPause coupled.first.stored)
    (coupled.second.consistent.atPause coupled.second.stored) longer i.config.maxStepsPerResume
  rw [← coupled.config] at machine' journal' finished'
  refine ⟨first, second, ?_, ?_, ?_⟩
  · rw [config_update, config_update, coupled.config]
  · rw [machine, journal, machine', journal']
    exact trails
  · rw [finished, finished']
    intro ended
    exact (congrArg (·.machine.pc) (trails.course_eq ended)).trans ended

theorem Coupled.updates {frames frames' : List τ} (longer : List.Forall₂ (· ≤ ·) frames frames')
    {i i' : Instance τ} {j j' : Journal} (coupled : Coupled script i j i' j') :
    Coupled script (performAll (frames.map .update) i j).1 (performAll (frames.map .update) i j).2
      (performAll (frames'.map .update) i' j').1 (performAll (frames'.map .update) i' j').2 := by
  induction longer generalizing i i' j j' with
  | nil => exact coupled
  | cons le _ ih => exact ih (coupled.update le)

/-- Loads an instance and updates it in frames whose lengths are given in seconds. -/
def drive (i : Instance τ) (clock : Binary32 → τ) (loading : Operation τ)
    (seconds : List Binary32) (j : Journal) : Instance τ × Journal :=
  performAll (loading :: (seconds.map clock).map .update) i j

theorem keepsUp_drive {clock : Binary32 → τ}
    (ascending : ∀ {seconds seconds'}, seconds ≤ seconds' → clock seconds ≤ clock seconds')
    {seconds seconds' : List Binary32} (longer : List.Forall₂ (· ≤ ·) seconds seconds')
    (i : Instance τ) {loading : Operation τ} (loads : loading.config?.isSome) (j : Journal) :
    KeepsUp (i.drive clock loading seconds j) (i.drive clock loading seconds' j) := by
  obtain ⟨script, untriggered⟩ := exists_untriggered loads i j
  have frames : List.Forall₂ (· ≤ ·) (seconds.map clock) (seconds'.map clock) := by
    rw [List.forall₂_map_left_iff, List.forall₂_map_right_iff]
    exact longer.imp fun _ _ => ascending
  exact (Coupled.updates frames (.refl untriggered _)).keepsUp

end Instance

/-- More time never makes a script fall behind. However an instance is loaded, with whatever
program, functions and budget of steps, and however it is updated in two series of frames of which
none of the second is shorter than the one at its place in the first: after every update the effects
of the first run are a prefix of those of the second, and if the first has finished, so has the
second with the same globals. This is so if time adds up exactly, and also if sums are rounded. -/
theorem longer_frames_never_fall_behind {seconds seconds' : List Binary32}
    (longer : List.Forall₂ (· ≤ ·) seconds seconds') (start : Journal) (n : Nat) :
    (∀ (i : Instance ExactMillis) (loading : Operation ExactMillis), loading.config?.isSome →
      Instance.KeepsUp (i.drive ExactMillis.ofFrame loading (seconds.take n) start)
        (i.drive ExactMillis.ofFrame loading (seconds'.take n) start)) ∧
    ∀ (i : Instance Millis) (loading : Operation Millis), loading.config?.isSome →
      Instance.KeepsUp (i.drive Millis.ofFrame loading (seconds.take n) start)
        (i.drive Millis.ofFrame loading (seconds'.take n) start) := by
  have frames := List.forall₂_take n longer
  constructor
  · intro i loading loads
    exact Instance.keepsUp_drive ExactMillis.ofFrame_mono frames i loads start
  · intro i loading loads
    exact Instance.keepsUp_drive Millis.ofFrame_mono frames i loads start

/-- Frames of two milliseconds and frames of five. After three of them the script has only called
its function twice in the first run, and has come to its end in the second; after five it has in
both. -/
theorem longer_frames_never_fall_behind_rounds :
    let short : Binary32 := ⟨false, Format.single.round 2 1000⟩
    let long : Binary32 := ⟨false, Format.single.round 5 1000⟩
    let loading : Operation Millis := .load ⟨[⟨5, "rounds", "script_rounds", .rounds, 0, ""⟩]⟩
      (Registry.empty.register 0xF fun earlier argument =>
        argument.toInt32 + Int32.ofNat earlier.length + 1) 0 .standard
    let after (seconds : List Binary32) (n : Nat) :=
      (Instance.new 7).drive .ofFrame loading (seconds.take n) .empty
    let run := after (List.replicate 5 short)
    let run' := after (List.replicate 5 long)
    List.Forall₂ (· ≤ ·) (List.replicate 5 short) (List.replicate 5 long) ∧
      (run 3).2.effects = [.call 0 0xF 1, .call 0 0xF 2] ∧
      (run 3).2.effects <+: (run' 3).2.effects ∧
      (run 3).1.phase = .suspended ∧ (run' 3).1.phase = .finished ∧
      (run' 5).1.phase = .finished ∧
      (run 5).1.machine.globals = (run' 5).1.machine.globals := by
  intro short long loading after run run'
  have le : short ≤ long := by decide +kernel
  have longer : List.Forall₂ (· ≤ ·) (List.replicate 5 short) (List.replicate 5 long) :=
    .cons le (.cons le (.cons le (.cons le (.cons le .nil))))
  have third := (longer_frames_never_fall_behind longer .empty 3).2 (.new 7) loading rfl
  have fifth := (longer_frames_never_fall_behind longer .empty 5).2 (.new 7) loading rfl
  obtain ⟨ended, globals, -⟩ := fifth.finished (by decide +kernel)
  exact ⟨longer, by decide +kernel, third.effects, by decide +kernel, by decide +kernel, ended,
    globals⟩

end NodeScript
