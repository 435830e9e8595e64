import NodeScript.Proofs.Execution.Loops

/-!
Triggers that come while nothing is under way. Whether one starts at once is decided by the phase,
and that tells whether there has been an update since the last loading: after one, the entry begins;
before one, the trigger waits although there is nothing to wait for, or is lost where no queue is
allowed.
-/
namespace NodeScript

namespace Operation

variable {τ : Type}

/-- What an operation makes of whether there has been an update since the last loading. -/
def turns? : Operation τ → Option Bool
  | load .. | loadAsset .. => some false
  | update _ => some true
  | _ => none

/-- Whether there has been an update since the last loading. -/
def turned (operations : List (Operation τ)) : Bool :=
  operations.foldl (fun before operation => operation.turns?.getD before) false

end Operation

namespace Instance

variable {τ : Type}

/-- How the phase goes with whether there has been an update since the last loading. -/
structure Turned (turned : Bool) (i : Instance τ) : Prop where
  finished : i.phase = .finished → turned = true
  dormant : i.phase = .running → i.machine.pc = none →
    turned = false ∧ i.entryOf? .init = none

theorem turned_new (owner : ObjectId) : (new owner : Instance τ).Turned false := ⟨nofun, nofun⟩

/-- Only a script without an entry for `init` has nothing under way when it has been loaded. -/
theorem turned_bind (i : Instance τ) (script : Script) (registry : Registry) (config : Config)
    (j : Journal) : (i.bind script registry config j).1.Turned false := by
  refine ⟨nofun, fun _ none_under => ⟨rfl, ?_⟩⟩
  exact (entryOf?_loaded rfl .init).trans none_under

theorem Turned.trigger {turned : Bool} {i : Instance τ} (holds : i.Turned turned)
    (trigger : Trigger) (j : Journal) : (i.trigger trigger j).1.Turned turned := by
  rcases i.trigger_cases trigger j with ⟨same, -⟩ | ⟨entry, -, ⟨-, started⟩ | ⟨-, -, queued⟩⟩
  · exact same.symm ▸ holds
  · rw [started]
    exact ⟨nofun, nofun⟩
  · rw [queued]
    exact ⟨holds.finished, holds.dormant⟩

/-- With nothing under way a loaded instance has finished, if there has been an update, and is
about to run nothing, if there has been none. -/
theorem Turned.phase_of_idle {turned : Bool} {i : Instance τ} (consistent : i.Consistent)
    (holds : i.Turned turned) {script : Script} (stored : i.script = some script)
    (idle : i.machine.pc = none) :
    (turned = true ∧ i.phase = .finished) ∨
      (turned = false ∧ i.phase = .running ∧ script.program.entries.get .init = none) := by
  cases phase : i.phase with
  | unloaded => cases stored.symm.trans (consistent.unloaded.mp phase)
  | running =>
    obtain ⟨fresh, closed⟩ := holds.dormant phase idle
    exact .inr ⟨fresh, rfl, (entryOf?_loaded stored .init).symm.trans closed⟩
  | suspended =>
    obtain ⟨pc, under⟩ := consistent.suspended phase
    cases idle.symm.trans under
  | finished => exact .inl ⟨holds.finished phase, rfl⟩

variable [Elapsed τ]

/-- An update leaves nothing dormant: what still runs behind it has an address. -/
theorem Consistent.turned_update {i : Instance τ} (consistent : i.Consistent) (frame : τ)
    (j : Journal) : (i.update frame j).1.Turned true := by
  rcases consistent.update_cases frame j with
    ⟨rests, same⟩ | ⟨-, script, pace, m, k, -, -, -, -, outcome⟩
  · rw [same]
    refine ⟨fun _ => rfl, fun running => ?_⟩
    rcases rests with rests | rests <;> cases rests.symm.trans running
  · rcases outcome with ⟨-, paused⟩ | ⟨-, -, finished⟩ | ⟨-, trigger, rest, entry, -, -, started⟩
    · rw [paused]
      exact ⟨nofun, nofun⟩
    · rw [finished]
      exact ⟨fun _ => rfl, nofun⟩
    · rw [started]
      exact ⟨nofun, nofun⟩

theorem Turned.perform {turned : Bool} {i : Instance τ} (consistent : i.Consistent)
    (holds : i.Turned turned) (operation : Operation τ) (j : Journal) :
    (i.perform j operation).1.Turned (operation.turns?.getD turned) := by
  cases operation with
  | load table registry index config =>
    simp only [Instance.perform, load]
    split <;> exact turned_bind ..
  | loadAsset table registry uuid config =>
    simp only [Instance.perform, loadAsset]
    split <;> exact turned_bind ..
  | update frame => exact consistent.turned_update frame j
  | trigger trigger => exact holds.trigger trigger j
  | takeCommands => exact ⟨holds.finished, holds.dormant⟩

theorem Turned.performAll {turned : Bool} {i : Instance τ} (consistent : i.Consistent)
    (holds : i.Turned turned) (operations : List (Operation τ)) (j : Journal) :
    (Instance.performAll operations i j).1.Turned
      (operations.foldl (fun before operation => operation.turns?.getD before) turned) := by
  induction operations generalizing turned i j with
  | nil => exact holds
  | cons operation rest ih =>
    exact ih (consistent.perform operation j) (holds.perform consistent operation j) _

/-- The entry that the next update runs, from its first instruction, with no trigger waiting. -/
structure Begins (i : Instance τ) (script : Script) (entry : Addr) : Prop where
  running : i.phase = .running
  under : i.machine.pc = some entry
  awake : i.machine.slept = none
  alone : i.pending = []
  turn : ∀ frame j, i.visited j (.update frame) =
    Machine.visits script.program frame i.config.maxStepsPerResume entry i.machine j

/-- The next update runs nothing; it only lets the trigger begin that has waited longest, and
without one the instance finishes. -/
structure Dormant (i : Instance τ) : Prop where
  running : i.phase = .running
  idle : i.machine.pc = none
  turn : ∀ frame j, i.visited j (.update frame) = [] ∧ (i.update frame j).2 = j
  next : ∀ frame j, (i.update frame j).1.machine.pc = i.pending.head?.bind i.entryOf? ∧
    (i.update frame j).1.pending = i.pending.tail ∧
    ((i.update frame j).1.phase = .finished ↔ i.pending = [])

theorem Consistent.begins {i : Instance τ} (consistent : i.Consistent) {script : Script}
    (stored : i.script = some script) (finished : i.phase = .finished) (entry : Addr) :
    ({ i with phase := .running, machine := { i.machine with pc := some entry } } :
      Instance τ).Begins script entry := by
  obtain ⟨-, awake, empty⟩ := consistent.finished finished
  refine ⟨rfl, rfl, awake, empty, fun frame j => ?_⟩
  simp only [visited, stored, Machine.turn]

theorem Consistent.dormant {i : Instance τ} (consistent : i.Consistent) {script : Script}
    (stored : i.script = some script) (running : i.phase = .running)
    (idle : i.machine.pc = none) : i.Dormant := by
  have resumed (frame : τ) (j : Journal) :
      i.machine.resume script.program frame i.config.maxStepsPerResume j =
        (.finished, i.machine, j) := by
    rw [Machine.resume, idle]
  refine ⟨running, idle, fun frame j => ⟨?_, ?_⟩, fun frame j => ?_⟩
  · simp only [visited, running, stored, Machine.turn, idle]
  · simp only [Instance.update, running, stored, resumed]
  · rcases consistent.update_cases frame j with
      ⟨rests, -⟩ | ⟨-, other, pace, m, k, stored', turn, -, -, outcome⟩
    · rcases rests with rests | rests <;> cases rests.symm.trans running
    · obtain rfl := Option.some.inj (stored.symm.trans stored')
      rw [resumed, Prod.mk.injEq, Prod.mk.injEq] at turn
      obtain ⟨rfl, rfl, rfl⟩ := turn
      rcases outcome with ⟨paused, -⟩ | ⟨-, empty, finished⟩ |
        ⟨-, trigger, rest, entry, waiting, entered, started⟩
      · cases paused
      · rw [finished, empty]
        exact ⟨idle, rfl, by simp⟩
      · rw [started, waiting]
        exact ⟨entered.symm, rfl, by simp⟩

end Instance

/-- A trigger that has an entry and finds nothing under way starts at once if and only if there has
been an update since the last loading. If there has been none, which takes a script without an
entry for `init`, it waits behind nothing while there is room in the queue, and is lost where there
is none; the next update runs no instruction. -/
theorem trigger_starts_iff_turned {τ : Type} [Elapsed τ] (owner : ObjectId)
    (operations : List (Operation τ)) (start : Journal) (script : Script) (trigger : Trigger)
    (entry : Addr) :
    let i := (Instance.performAll operations (.new owner) start).1
    let j := (Instance.performAll operations (.new owner) start).2
    i.script = some script → i.machine.pc = none →
    script.program.entries.get trigger = some entry →
    let next := i.trigger trigger j
    (next.1.machine.pc = some entry ↔ Operation.turned operations = true) ∧
      (Operation.turned operations = true →
        next = ({ i with
          phase := .running
          machine := { i.machine with pc := some entry } }, j) ∧
        next.1.Begins script entry) ∧
      (Operation.turned operations = false →
        script.program.entries.get .init = none ∧ next.1.Dormant ∧
        (i.pending.length < i.config.maxPendingTriggers →
          next = ({ i with pending := i.pending ++ [trigger] }, j)) ∧
        (i.config.maxPendingTriggers ≤ i.pending.length →
          next = (i, j.report (.queueFull i.owner trigger)))) := by
  intro i j stored idle found next
  have consistent : i.Consistent := (instance_consistent owner operations start).1
  have holds : i.Turned (Operation.turned operations) :=
    (Instance.turned_new owner).performAll (Instance.consistent_new owner) operations start
  rcases holds.phase_of_idle consistent stored idle with
    ⟨turned, finished⟩ | ⟨fresh, running, closed⟩
  · have started : next = ({ i with
        phase := .running
        machine := { i.machine with pc := some entry } }, j) := by
      simp only [next, Instance.trigger, stored, found, finished, if_true]
    rw [started, turned]
    refine ⟨by simp, fun _ => ⟨rfl, consistent.begins stored finished entry⟩, fun unturned => ?_⟩
    cases unturned
  · have queued : i.pending.length < i.config.maxPendingTriggers →
        next = ({ i with pending := i.pending ++ [trigger] }, j) := by
      intro room
      simp only [next, Instance.trigger, stored, found, running, reduceCtorEq, room, if_true,
        if_false]
    have lost : i.config.maxPendingTriggers ≤ i.pending.length →
        next = (i, j.report (.queueFull i.owner trigger)) := by
      intro full
      have full : ¬ i.pending.length < i.config.maxPendingTriggers := Nat.not_lt.mpr full
      simp only [next, Instance.trigger, stored, found, running, reduceCtorEq, full, if_false]
    -- Either way the script, the phase and the machine stay as they were.
    have kept : next.1.script = some script ∧ next.1.phase = .running ∧
        next.1.machine.pc = none := by
      rcases Nat.lt_or_ge i.pending.length i.config.maxPendingTriggers with room | full
      · rw [queued room]
        exact ⟨stored, running, idle⟩
      · rw [lost full]
        exact ⟨stored, running, idle⟩
    have dormant : next.1.Dormant :=
      (consistent.trigger trigger j).dormant kept.1 kept.2.1 kept.2.2
    refine ⟨?_, ?_, fun _ => ⟨closed, dormant, queued, lost⟩⟩
    · rw [kept.2.2, fresh]
      simp
    · intro turned
      cases fresh.symm.trans turned

/-- Deletes its owner when an event comes, and does nothing else. -/
def Program.onEvent : Program :=
  { code := #[.deleteObject (.constant 0), .finish]
    entries := ⟨none, some 0, none⟩, globals := #[], maxLocals := 0 }

/-- An event right after the loading is lost if no queue is allowed; after one update it starts. -/
theorem trigger_starts_iff_turned_on_event :
    let table : Table := ⟨[⟨7, "bell", "script_bell", .onEvent, 0, ""⟩]⟩
    let loading : Operation Millis := .load table .empty 0 ⟨1, 0, 10⟩
    let fresh := Instance.performAll [loading] (.new 1) .empty
    let later := Instance.performAll [loading, .update ⟨0⟩] (.new 1) .empty
    fresh.1.trigger .event fresh.2 = (fresh.1, fresh.2.report (.queueFull 1 .event)) ∧
      (fresh.1.trigger .event fresh.2).1.Dormant ∧
      ∃ script, (later.1.trigger .event later.2).1.Begins script 0 := by
  intro table loading fresh later
  obtain ⟨-, -, dormant⟩ := trigger_starts_iff_turned 1 [loading] .empty
    ⟨7, "bell", "script_bell", .onEvent, 0, ""⟩ .event 0 rfl rfl rfl
  obtain ⟨-, asleep, -, lost⟩ := dormant rfl
  obtain ⟨-, begins, -⟩ := trigger_starts_iff_turned 1 [loading, .update ⟨0⟩] .empty
    ⟨7, "bell", "script_bell", .onEvent, 0, ""⟩ .event 0 rfl rfl rfl
  exact ⟨lost (Nat.le_refl 0), asleep, _, (begins rfl).2⟩

end NodeScript
