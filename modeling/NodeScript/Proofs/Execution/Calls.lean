import NodeScript.Execution.Instance

/-!
What the host of an instance does and sees. A call loads a unit, gives it a frame or sends it a
trigger; after each call the host sees the phase, the commands issued and the effects, which are
the entries of the journal that are no diagnostics.
-/
namespace NodeScript

namespace Entry

/-- Whether an entry is a call of a user function or a command. -/
def isEffect : Entry → Bool
  | event _ => false
  | _ => true

/-- Whether an entry tells that a turn has used up its steps. -/
def isCut : Entry → Bool
  | event (.budgetSpent ..) => true
  | _ => false

end Entry

namespace Journal

/-- Calls of user functions and commands, in their order. -/
def effects (j : Journal) : List Entry := j.entries.toList.filter Entry.isEffect

/-- How many turns have used up their steps. -/
def cuts (j : Journal) : Nat := j.entries.toList.countP Entry.isCut

theorem effects_add (j : Journal) (entry : Entry) :
    (j.add entry).effects = j.effects ++ [entry].filter Entry.isEffect := by
  simp [effects, add]

@[simp] theorem effects_report (j : Journal) (event : Event) :
    (j.report event).effects = j.effects := by
  simp [report, effects_add, Entry.isEffect]

@[simp] theorem effects_command (j : Journal) (command : Command) :
    (j.add (.command command)).effects = j.effects ++ [.command command] := by
  simp [effects_add, Entry.isEffect]

@[simp] theorem effects_call (j : Journal) (f : UserFunction) (argument : UInt32) :
    (j.call f argument).1.effects = j.effects ++ [.call f.id f.hash argument] := by
  simp [call, effects_add, Entry.isEffect]

@[simp] theorem effects_reportAll (j : Journal) (events : List Event) :
    (j.reportAll events).effects = j.effects := by
  induction events generalizing j with
  | nil => rfl
  | cons event rest ih => exact (ih (j.report event)).trans (effects_report j event)

theorem cuts_report (j : Journal) (event : Event) :
    (j.report event).cuts = j.cuts + if (Entry.event event).isCut then 1 else 0 := by
  simp [cuts, report, add, List.countP_singleton]

theorem cuts_le_report (j : Journal) (event : Event) : j.cuts ≤ (j.report event).cuts := by
  rw [cuts_report]
  exact Nat.le_add_right _ _

theorem cuts_le_reportAll (j : Journal) (events : List Event) :
    j.cuts ≤ (j.reportAll events).cuts := by
  induction events generalizing j with
  | nil => exact Nat.le_refl _
  | cons event rest ih => exact Nat.le_trans (cuts_le_report j event) (ih (j.report event))

/-- What a function has been called with is read off the effects. -/
theorem history_eq (j : Journal) (function : Nat) :
    j.history function = j.effects.filterMap (Entry.argument? function) := by
  rw [history, effects, List.filterMap_filter]
  congr 1
  funext entry
  cases entry <;> rfl

theorem call_congr {j k : Journal} (same : j.effects = k.effects) (f : UserFunction)
    (argument : UInt32) : (j.call f argument).2 = (k.call f argument).2 :=
  congrArg (f.result · argument) (by rw [history_eq, history_eq, same])

end Journal

/-- What a host does with an instance. -/
inductive Call (τ : Type)
  | load (config : Config)
  | update (frame : τ)
  | trigger (trigger : Trigger)

/-- What a host sees after a call. -/
structure Observation where
  phase : Phase
  commands : List Command
  effects : List Entry
  deriving DecidableEq, Repr

namespace Instance

variable {τ : Type} [Elapsed τ]

/-- One call, for the unit at an index. -/
def handle (table : Table) (registry : Registry) (index : Nat) (i : Instance τ) (j : Journal) :
    Call τ → Instance τ × Journal
  | .load config => i.load table registry index config j
  | .update frame => i.update frame j
  | .trigger trigger => i.trigger trigger j

/-- The instance and the journal after calls. -/
def follow (table : Table) (registry : Registry) (index : Nat) :
    List (Call τ) → Instance τ → Journal → Instance τ × Journal
  | [], i, j => (i, j)
  | call :: rest, i, j =>
    let (i, j) := i.handle table registry index j call
    follow table registry index rest i j

/-- What a host sees after each of the calls. -/
def observe (table : Table) (registry : Registry) (index : Nat) :
    List (Call τ) → Instance τ → Journal → List Observation
  | [], _, _ => []
  | call :: rest, i, j =>
    let (i, j) := i.handle table registry index j call
    ⟨i.phase, i.machine.commands.toList, j.effects⟩ :: observe table registry index rest i j

end Instance

end NodeScript
