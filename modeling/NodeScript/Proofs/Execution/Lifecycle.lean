import NodeScript.Proofs.Execution.Rules

/-!
What holds of an instance at any time of its life. The phase, the saved address, the time spent in
a pause, the queue and the storage belong to different parts of an instance and change in different
operations; `Instance.Consistent` says how they agree, and every operation keeps it.
-/
namespace NodeScript

namespace Machine

variable {τ : Type}

/-- What the size of the storage of a machine depends on. -/
def shape (m : Machine τ) : ObjectId × Nat × Nat × Nat :=
  (m.owner, m.globals.size, m.bound.size, m.locals.size)

/-- A pause that has been entered is the one at the saved address. -/
def AtPause (program : Program) (m : Machine τ) : Prop :=
  m.slept.isSome → ∃ pc duration, m.pc = some pc ∧
    program.code[pc.toNat]? = some (.sleep duration)

theorem AtPause.here {program : Program} {m : Machine τ} {pc : Addr} (pause : m.AtPause program)
    (under : m.pc = some pc) (asleep : m.slept.isSome) :
    ∃ duration, program.code[pc.toNat]? = some (.sleep duration) := by
  obtain ⟨pc', duration, under', found⟩ := pause asleep
  obtain rfl := Option.some.inj (under.symm.trans under')
  exact ⟨duration, found⟩

/-- What a turn leaves. An execution that has ended leaves neither an address nor a pause. -/
def Left (program : Program) (m : Machine τ) : Pace → Prop
  | .suspended => m.pc.isSome ∧ m.AtPause program
  | .finished => m.pc = none ∧ m.slept = none

end Machine

/-- What one instruction leads to: no pause stays entered behind it. -/
def Step.Tidy {τ : Type} (program : Program) (before : Machine τ) : Step τ → Prop
  | .next _ m _ => m.shape = before.shape ∧ m.slept = none
  | .stop pace m _ => m.shape = before.shape ∧ m.Left program pace

namespace Machine

variable {τ : Type} {program : Program}

@[simp] theorem shape_setGlobal (m : Machine τ) (slot : Slot) (value : Int64) :
    (m.setGlobal slot value).shape = m.shape := by
  simp [shape, setGlobal]

variable [Elapsed τ]

theorem StepsTo.tidy {frame : τ} {pc : Addr} {m : Machine τ} {j : Journal} {result : Step τ}
    (steps : StepsTo program frame pc m j result)
    (here : m.slept.isSome → ∃ duration, program.code[pc.toNat]? = some (.sleep duration)) :
    result.Tidy program m := by
  -- Away from a pause nothing has been slept, and no instruction but a pause changes that.
  have awake {instruction : Instruction} (found : program.code[pc.toNat]? = some instruction)
      (other : ∀ duration, instruction ≠ .sleep duration) : m.slept = none := by
    cases slept : m.slept with
    | none => rfl
    | some time =>
      obtain ⟨duration, pause⟩ := here (by rw [slept]; rfl)
      rw [found] at pause
      exact absurd (Option.some.inj pause) (other duration)
  cases steps with
  | outside | unroomy | finish => exact ⟨rfl, rfl, rfl⟩
  | enter found | wait found => exact ⟨rfl, rfl, fun _ => ⟨pc, _, rfl, found⟩⟩
  | wake => exact ⟨rfl, rfl⟩
  | setLocal found => exact ⟨by simp [shape], awake found nofun⟩
  | call found | miss found | again found | leave found =>
    exact ⟨shape_setGlobal .., awake found nofun⟩
  | deleteObject found | sendEvent found | goOn found | branch found | jump found =>
    exact ⟨rfl, awake found nofun⟩

theorem run_tidy (frame : τ) (budget steps : Nat) {pc : Addr} {m : Machine τ}
    (here : m.slept.isSome → ∃ duration, program.code[pc.toNat]? = some (.sleep duration))
    (j : Journal) :
    (run program frame budget steps pc m j).2.1.shape = m.shape ∧
      (run program frame budget steps pc m j).2.1.Left program
        (run program frame budget steps pc m j).1 := by
  fun_induction run program frame budget steps pc m j with
  | case1 pc m j =>
    refine ⟨rfl, rfl, fun asleep => ?_⟩
    obtain ⟨duration, found⟩ := here asleep
    exact ⟨pc, duration, rfl, found⟩
  | case2 steps pc m j pc' m' j' next ih =>
    obtain ⟨same, awake⟩ := (stepsTo_iff.mpr next).tidy here
    obtain ⟨same', left⟩ := ih (by simp [awake])
    exact ⟨same'.trans same, left⟩
  | case3 steps pc m j pace m' j' stop => exact (stepsTo_iff.mpr stop).tidy here

/-- A turn keeps the size of the storage, and leaves what its end calls for. -/
theorem AtPause.resume {m : Machine τ} (pause : m.AtPause program) (frame : τ) (budget : Nat)
    (j : Journal) :
    (m.resume program frame budget j).2.1.shape = m.shape ∧
      (m.resume program frame budget j).2.1.Left program
        (m.resume program frame budget j).1 := by
  unfold Machine.resume
  cases next : m.pc with
  | none =>
    refine ⟨rfl, next, ?_⟩
    cases slept : m.slept with
    | none => rfl
    | some time =>
      obtain ⟨pc, duration, under, -⟩ := pause (by rw [slept]; rfl)
      rw [next] at under
      cases under
  | some pc => exact run_tidy frame budget budget (pause.here next) j

end Machine

namespace Instance

variable {τ : Type}

/-- Where the loaded script, if there is one, starts for a trigger. -/
def entryOf? (i : Instance τ) (trigger : Trigger) : Option Addr :=
  i.script.bind fun script => script.program.entries.get trigger

theorem entryOf?_loaded {i : Instance τ} {script : Script} (stored : i.script = some script)
    (trigger : Trigger) : i.entryOf? trigger = script.program.entries.get trigger := by
  rw [entryOf?, stored, Option.bind_some]

/-- How the parts of an instance agree. -/
structure Consistent (i : Instance τ) : Prop where
  unloaded : i.phase = .unloaded ↔ i.script = none
  finished : i.phase = .finished →
    i.machine.pc = none ∧ i.machine.slept = none ∧ i.pending = []
  suspended : i.phase = .suspended → ∃ pc, i.machine.pc = some pc
  paused : ∀ time, i.machine.slept = some time → i.phase = .suspended ∧
    ∃ script pc duration, i.script = some script ∧ i.machine.pc = some pc ∧
      script.program.code[pc.toNat]? = some (.sleep duration)
  queued : ∀ trigger ∈ i.pending, (i.entryOf? trigger).isSome
  bounded : i.pending.length ≤ i.config.maxPendingTriggers
  storage : ∀ script, i.script = some script →
    i.machine.globals.size = script.program.globals.size ∧
      i.machine.bound.size = script.program.globals.size ∧
      script.program.maxLocals.toNat ≤ i.machine.locals.size

theorem consistent_new (owner : ObjectId) : (new owner : Instance τ).Consistent where
  unloaded := ⟨fun _ => rfl, fun _ => rfl⟩
  finished := nofun
  suspended := nofun
  paused := nofun
  queued := nofun
  bounded := Nat.zero_le _
  storage := nofun

theorem consistent_bind (i : Instance τ) (script : Script) (registry : Registry) (config : Config)
    (j : Journal) : (i.bind script registry config j).1.Consistent where
  unloaded := ⟨nofun, nofun⟩
  finished := nofun
  suspended := nofun
  paused := nofun
  queued := nofun
  bounded := Nat.zero_le _
  storage := by
    rintro other stored
    obtain rfl : script = other := Option.some.inj stored
    refine ⟨by simp [bind], by simp [bind, bindFunctions], ?_⟩
    simp only [bind, Array.size_replicate]
    exact Nat.le_max_right _ _

theorem Consistent.atPause {i : Instance τ} (consistent : i.Consistent) {script : Script}
    (stored : i.script = some script) : i.machine.AtPause script.program := by
  intro asleep
  obtain ⟨time, slept⟩ := Option.isSome_iff_exists.mp asleep
  obtain ⟨-, other, pc, duration, stored', under, found⟩ := consistent.paused time slept
  obtain rfl := Option.some.inj (stored.symm.trans stored')
  exact ⟨pc, duration, under, found⟩

/-- The storage is that of the script as long as its size stays. -/
theorem Consistent.storage_of_shape {i : Instance τ} (consistent : i.Consistent) {m : Machine τ}
    (same : m.shape = i.machine.shape) (script : Script) (stored : i.script = some script) :
    m.globals.size = script.program.globals.size ∧ m.bound.size = script.program.globals.size ∧
      script.program.maxLocals.toNat ≤ m.locals.size := by
  obtain ⟨globals, bound, locals⟩ := consistent.storage script stored
  simp only [Machine.shape, Prod.mk.injEq] at same
  obtain ⟨-, globals', bound', locals'⟩ := same
  exact ⟨globals'.trans globals, bound'.trans bound, locals' ▸ locals⟩

/-- The queue holds only triggers that have an entry, so its first one is the next to start. -/
theorem nextPending?_cons {script : Script} {trigger : Trigger} {entry : Addr}
    (found : script.program.entries.get trigger = some entry) (rest : List Trigger) :
    nextPending? script (trigger :: rest) = some (entry, rest) := by
  rw [nextPending?, found]

/-- Whether a trigger is accepted: it has an entry, and it can start or wait. -/
def Accepts (i : Instance τ) (trigger : Trigger) : Prop :=
  (i.entryOf? trigger).isSome ∧
    (i.phase = .finished ∨ i.pending.length < i.config.maxPendingTriggers)

instance (i : Instance τ) (trigger : Trigger) : Decidable (i.Accepts trigger) :=
  inferInstanceAs (Decidable (_ ∧ _))

/-- A trigger that is accepted starts at once or waits behind all others; any other changes
nothing. -/
theorem trigger_cases (i : Instance τ) (trigger : Trigger) (j : Journal) :
    ((i.trigger trigger j).1 = i ∧ ¬ i.Accepts trigger) ∨
      ∃ entry, i.entryOf? trigger = some entry ∧
        ((i.phase = .finished ∧ (i.trigger trigger j).1 =
            { i with phase := .running, machine := { i.machine with pc := some entry } }) ∨
          (i.phase ≠ .finished ∧ i.pending.length < i.config.maxPendingTriggers ∧
            (i.trigger trigger j).1 = { i with pending := i.pending ++ [trigger] })) := by
  have fires := i.triggersTo_trigger trigger j
  generalize i.trigger trigger j = result at fires ⊢
  cases fires with
  | unloaded absent =>
    refine .inl ⟨rfl, fun accepts => ?_⟩
    simp [Accepts, entryOf?, absent] at accepts
  | entryless stored missing =>
    refine .inl ⟨rfl, fun accepts => ?_⟩
    simp [Accepts, entryOf?_loaded stored, missing] at accepts
  | start stored found ended =>
    exact .inr ⟨_, (entryOf?_loaded stored trigger).trans found, .inl ⟨ended, rfl⟩⟩
  | queue stored found busy room =>
    exact .inr ⟨_, (entryOf?_loaded stored trigger).trans found, .inr ⟨busy, room, rfl⟩⟩
  | refuse stored found busy full =>
    exact .inl ⟨rfl, fun accepts => accepts.2.elim busy full⟩

theorem Consistent.trigger {i : Instance τ} (consistent : i.Consistent) (trigger : Trigger)
    (j : Journal) : (i.trigger trigger j).1.Consistent := by
  rcases i.trigger_cases trigger j with ⟨same, -⟩ | ⟨entry, found, outcome⟩
  · exact same.symm ▸ consistent
  · rcases outcome with ⟨finished, started⟩ | ⟨busy, room, queued⟩
    · obtain ⟨-, awake, -⟩ := consistent.finished finished
      rw [started]
      refine ⟨⟨nofun, fun absent => ?_⟩, nofun, nofun, ?_, consistent.queued, consistent.bounded,
        consistent.storage⟩
      · rw [consistent.unloaded.mpr absent] at finished
        cases finished
      · intro time slept
        cases awake.symm.trans slept
    · rw [queued]
      refine ⟨consistent.unloaded, fun finished => absurd finished busy, consistent.suspended,
        consistent.paused, ?_, ?_, consistent.storage⟩
      · intro later member
        rcases List.mem_append.mp member with earlier | new
        · exact consistent.queued later earlier
        · rw [List.mem_singleton.mp new]
          exact Option.isSome_iff_exists.mpr ⟨entry, found⟩
      · rw [List.length_append, List.length_singleton]
        exact room

theorem config_trigger (i : Instance τ) (trigger : Trigger) (j : Journal) :
    (i.trigger trigger j).1.config = i.config := by
  rcases i.trigger_cases trigger j with
    ⟨same, -⟩ | ⟨_, _, ⟨_, started⟩ | ⟨_, _, queued⟩⟩
  · rw [same]
  · rw [started]
  · rw [queued]

theorem Consistent.takeCommands {i : Instance τ} (consistent : i.Consistent) :
    i.takeCommands.1.Consistent :=
  ⟨consistent.unloaded, consistent.finished, consistent.suspended, consistent.paused,
    consistent.queued, consistent.bounded, consistent.storage⟩

variable [Elapsed τ]

/-- A turn pauses the execution or ends it; where it ends, the trigger that has waited longest
starts, if there is one. -/
theorem Consistent.update_cases {i : Instance τ} (consistent : i.Consistent) (frame : τ)
    (j : Journal) :
    ((i.phase = .unloaded ∨ i.phase = .finished) ∧ i.update frame j = (i, j)) ∨
      (i.phase = .running ∨ i.phase = .suspended) ∧ ∃ script pace m k,
        i.script = some script ∧
        i.machine.resume script.program frame i.config.maxStepsPerResume j = (pace, m, k) ∧
        m.shape = i.machine.shape ∧ m.Left script.program pace ∧
          ((pace = .suspended ∧
              i.update frame j = ({ i with phase := .suspended, machine := m }, k)) ∨
            (pace = .finished ∧ i.pending = [] ∧
              i.update frame j = ({ i with phase := .finished, machine := m }, k)) ∨
            (pace = .finished ∧ ∃ trigger rest entry, i.pending = trigger :: rest ∧
              i.entryOf? trigger = some entry ∧
              i.update frame j = ({ i with
                phase := .running
                machine := { m with pc := some entry }
                pending := rest }, k))) := by
  rcases i.update_cases frame with
    ⟨unloaded | finished | absent, same⟩ | ⟨active, script, stored, turns⟩
  · exact .inl ⟨.inl unloaded, same j⟩
  · exact .inl ⟨.inr finished, same j⟩
  · exact .inl ⟨.inl (consistent.unloaded.mpr absent), same j⟩
  · refine .inr ⟨active, ?_⟩
    obtain ⟨same, left⟩ := (consistent.atPause stored).resume frame i.config.maxStepsPerResume j
    have settled := turns j
    rcases turn : i.machine.resume script.program frame i.config.maxStepsPerResume j with
      ⟨pace, m, k⟩
    rw [turn] at same left settled
    refine ⟨script, pace, m, k, stored, turn, same, left, ?_⟩
    rw [settled]
    cases pace with
    | suspended => exact .inl ⟨rfl, rfl⟩
    | finished =>
      cases waiting : i.pending with
      | nil => exact .inr (.inl ⟨rfl, rfl, by simp only [settle, waiting, nextPending?]⟩)
      | cons trigger rest =>
        have queued := consistent.queued trigger (waiting ▸ List.mem_cons_self ..)
        obtain ⟨entry, entered⟩ := Option.isSome_iff_exists.mp queued
        have found := (entryOf?_loaded stored trigger).symm.trans entered
        refine .inr (.inr ⟨rfl, trigger, rest, entry, rfl, entered, ?_⟩)
        simp only [settle, waiting, nextPending?_cons found]

theorem Consistent.update {i : Instance τ} (consistent : i.Consistent) (frame : τ)
    (j : Journal) : (i.update frame j).1.Consistent := by
  rcases consistent.update_cases frame j with
    ⟨-, same⟩ | ⟨active, script, pace, m, k, stored, turn, shape, left, outcome⟩
  · exact same.symm ▸ consistent
  · have storage := consistent.storage_of_shape shape
    have loaded (phase : Phase) (other : phase ≠ .unloaded) :
        phase = .unloaded ↔ i.script = none := by simp [other, stored]
    rcases outcome with ⟨rfl, paused⟩ | ⟨rfl, empty, finished⟩ |
      ⟨rfl, trigger, rest, entry, waiting, -, started⟩
    · obtain ⟨under, pause⟩ := left
      rw [paused]
      refine ⟨loaded _ nofun, nofun, fun _ => Option.isSome_iff_exists.mp under, ?_,
        consistent.queued, consistent.bounded, storage⟩
      intro time slept
      obtain ⟨pc, duration, here, found⟩ := pause (Option.isSome_iff_exists.mpr ⟨time, slept⟩)
      exact ⟨rfl, script, pc, duration, stored, here, found⟩
    · obtain ⟨ended, awake⟩ := left
      rw [finished]
      refine ⟨loaded _ nofun, fun _ => ⟨ended, awake, empty⟩, nofun, ?_, consistent.queued,
        consistent.bounded, storage⟩
      intro time slept
      cases awake.symm.trans slept
    · obtain ⟨-, awake⟩ := left
      have queued := consistent.queued
      have bounded := consistent.bounded
      rw [waiting] at queued bounded
      rw [started]
      refine ⟨loaded _ nofun, nofun, nofun, ?_,
        fun later member => queued later (List.mem_cons_of_mem _ member),
        Nat.le_of_succ_le bounded, storage⟩
      intro time slept
      cases awake.symm.trans slept

end Instance

/-- What a host may do with an instance. -/
inductive Operation (τ : Type)
  | load (table : Table) (registry : Registry) (index : Nat) (config : Config)
  | loadAsset (table : Table) (registry : Registry) (uuid : UInt64) (config : Config)
  | update (frame : τ)
  | trigger (trigger : Trigger)
  | takeCommands

namespace Operation

variable {τ : Type}

/-- The configuration that an operation puts in force. -/
def config? : Operation τ → Option Config
  | load _ _ _ config | loadAsset _ _ _ config => some config
  | _ => none

/-- The configuration in force after operations: that of the last loading. -/
def inForce (operations : List (Operation τ)) (before : Config) : Config :=
  operations.foldl (fun current operation => operation.config?.getD current) before

end Operation

namespace Instance

variable {τ : Type} [Elapsed τ]

def perform (i : Instance τ) (j : Journal) : Operation τ → Instance τ × Journal
  | .load table registry index config => i.load table registry index config j
  | .loadAsset table registry uuid config => i.loadAsset table registry uuid config j
  | .update frame => i.update frame j
  | .trigger trigger => i.trigger trigger j
  | .takeCommands => (i.takeCommands.1, j)

def performAll : List (Operation τ) → Instance τ → Journal → Instance τ × Journal
  | [], i, j => (i, j)
  | operation :: rest, i, j =>
    let (i, j) := i.perform j operation
    performAll rest i j

/-- An operation that puts a configuration in force binds a script. -/
theorem perform_loads (i : Instance τ) {operation : Operation τ} {config : Config}
    (loads : operation.config? = some config) (j : Journal) :
    ∃ script registry k, i.perform j operation = i.bind script registry config k := by
  cases operation with
  | load table registry index config' =>
    obtain rfl := Option.some.inj loads
    simp only [perform, load]
    split <;> exact ⟨_, _, _, rfl⟩
  | loadAsset table registry uuid config' =>
    obtain rfl := Option.some.inj loads
    simp only [perform, loadAsset]
    split <;> exact ⟨_, _, _, rfl⟩
  | update | trigger | takeCommands => cases loads

theorem Consistent.perform {i : Instance τ} (consistent : i.Consistent) (operation : Operation τ)
    (j : Journal) : (i.perform j operation).1.Consistent := by
  cases loads : operation.config? with
  | some config =>
    obtain ⟨script, registry, k, bound⟩ := i.perform_loads loads j
    rw [bound]
    exact consistent_bind ..
  | none =>
    cases operation with
    | load | loadAsset => cases loads
    | update frame => exact consistent.update frame j
    | trigger trigger => exact consistent.trigger trigger j
    | takeCommands => exact consistent.takeCommands

theorem Consistent.performAll {i : Instance τ} (consistent : i.Consistent)
    (operations : List (Operation τ)) (j : Journal) :
    (Instance.performAll operations i j).1.Consistent := by
  induction operations generalizing i j with
  | nil => exact consistent
  | cons operation rest ih => exact ih (consistent.perform operation j) _

theorem config_update (i : Instance τ) (frame : τ) (j : Journal) :
    (i.update frame j).1.config = i.config := by
  rcases i.update_cases frame with ⟨-, same⟩ | ⟨-, script, -, turns⟩
  · rw [same]
  · rw [turns]
    exact config_settle ..

theorem config_perform (i : Instance τ) (operation : Operation τ) (j : Journal) :
    (i.perform j operation).1.config = operation.config?.getD i.config := by
  cases loads : operation.config? with
  | some config =>
    obtain ⟨script, registry, k, bound⟩ := i.perform_loads loads j
    rw [bound]
    rfl
  | none =>
    cases operation with
    | load | loadAsset => cases loads
    | update frame => exact config_update i frame j
    | trigger trigger => exact config_trigger i trigger j
    | takeCommands => rfl

theorem config_performAll (operations : List (Operation τ)) (i : Instance τ) (j : Journal) :
    (performAll operations i j).1.config = Operation.inForce operations i.config := by
  induction operations generalizing i j with
  | nil => rfl
  | cons operation rest ih =>
    rw [performAll, ih, config_perform, Operation.inForce, Operation.inForce, List.foldl_cons]

end Instance

/-- However an instance is used, with whatever tables, programs, registries and configurations, its
parts agree, and the configuration that bounds the queue is the one it was loaded with last. -/
theorem instance_consistent {τ : Type} [Elapsed τ] (owner : ObjectId)
    (operations : List (Operation τ)) (j : Journal) :
    let reached := (Instance.performAll operations (.new owner) j).1
    reached.Consistent ∧ reached.config = Operation.inForce operations .standard :=
  ⟨(Instance.consistent_new owner).performAll operations j,
    Instance.config_performAll operations (.new owner) j⟩

end NodeScript
