import NodeScript.Execution.Config
import NodeScript.Execution.Machine
import NodeScript.Table.Basic

/-!
Instances: the execution of one script on behalf of one object. Loading starts the entry for
`init`; every update gives the execution one turn; other triggers start their entries when nothing
runs and wait in a bounded queue otherwise.
-/
namespace NodeScript

structure Instance (τ : Type) where
  phase : Phase
  script : Option Script
  machine : Machine τ
  /-- Triggers that wait, the oldest first. -/
  pending : List Trigger
  config : Config

namespace Instance

variable {τ : Type}

/-- An instance that has not been loaded. -/
def new (owner : ObjectId) : Instance τ := ⟨.unloaded, none, .idle owner, [], .standard⟩

def owner (i : Instance τ) : ObjectId := i.machine.owner

/-- The function that each global refers to. -/
def bindFunctions (registry : Registry) (script : Script) : Array (Option UserFunction) :=
  script.program.globals.map fun global =>
    match global.kind with
    | .function hash => registry.resolve? hash
    | _ => none

/-- A report for each global that refers to a function that is not registered. -/
def bindingEvents (owner : ObjectId) (registry : Registry) (script : Script) : List Event :=
  script.program.globals.toList.filterMap fun global =>
    match global.kind with
    | .function hash =>
      if registry.contains hash then none
      else some (.unregisteredFunction owner hash script.name)
    | _ => none

/-- Starts over with a script; nothing of an earlier one is kept. -/
def bind (i : Instance τ) (script : Script) (registry : Registry) (config : Config)
    (j : Journal) : Instance τ × Journal :=
  let owner := i.owner
  let factor := config.effectiveFactor
  let slots := script.stackSize.toNat * factor.toNat
  let clamped :=
    if factor = config.stackSafetyFactor then []
    else [Event.factorClamped owner config.stackSafetyFactor factor]
  let machine : Machine τ :=
    { owner
      pc := script.program.entries.init
      slept := none
      globals := script.program.globals.map (·.initial)
      bound := bindFunctions registry script
      locals := Array.replicate (max slots script.program.maxLocals.toNat) 0
      commands := #[] }
  (⟨.running, some script, machine, [], config⟩,
    j.reportAll (bindingEvents owner registry script ++ clamped
      ++ [.loaded owner script.name slots]))

/-- Loads the script at an index. In place of a missing one the dummy is loaded, which finishes at
its first turn. -/
def load (i : Instance τ) (table : Table) (registry : Registry) (index : Nat) (config : Config)
    (j : Journal) : Instance τ × Journal :=
  match table.get? index with
  | some script => i.bind script registry config j
  | none =>
    i.bind .dummy registry config (j.report (.noUnitAtIndex i.owner index table.size))

/-- Loads the script of an asset. -/
def loadAsset (i : Instance τ) (table : Table) (registry : Registry) (uuid : UInt64)
    (config : Config) (j : Journal) : Instance τ × Journal :=
  match table.getByUuid? uuid with
  | some script => i.bind script registry config j
  | none => i.bind .dummy registry config (j.report (.noUnitForAsset i.owner uuid))

/-- The entry of the first waiting trigger that has one, and the triggers behind it. -/
def nextPending? (script : Script) : List Trigger → Option (Addr × List Trigger)
  | [] => none
  | trigger :: rest =>
    match script.program.entries.get trigger with
    | some entry => some (entry, rest)
    | none => nextPending? script rest

/-- What follows a turn: an execution that goes on, the next trigger in the queue, or rest. -/
def settle (i : Instance τ) (script : Script) (pace : Pace) (machine : Machine τ) :
    Instance τ :=
  match pace with
  | .suspended => { i with phase := .suspended, machine }
  | .finished =>
    match nextPending? script i.pending with
    | some (entry, rest) =>
      { i with phase := .running, machine := { machine with pc := some entry }, pending := rest }
    | none => { i with phase := .finished, machine, pending := [] }

/-- Gives the execution a turn in a frame that takes `frame` of time. -/
def update [Elapsed τ] (i : Instance τ) (frame : τ) (j : Journal) : Instance τ × Journal :=
  match i.phase, i.script with
  | .unloaded, _ => (i, j)
  | .finished, _ => (i, j)
  | _, none => (i, j)
  | _, some script =>
    let (pace, machine, j) :=
      i.machine.resume script.program frame i.config.maxStepsPerResume j
    (i.settle script pace machine, j)

/-- Asks for the entry of a trigger. -/
def trigger (i : Instance τ) (trigger : Trigger) (j : Journal) : Instance τ × Journal :=
  match i.script with
  | none => (i, j.report (.triggerBeforeLoad i.owner trigger))
  | some script =>
    match script.program.entries.get trigger with
    | none => (i, j.report (.triggerWithoutEntry i.owner trigger script.name))
    | some entry =>
      if i.phase = .finished then
        ({ i with phase := .running, machine := { i.machine with pc := some entry } }, j)
      else if i.pending.length < i.config.maxPendingTriggers then
        ({ i with pending := i.pending ++ [trigger] }, j)
      else (i, j.report (.queueFull i.owner trigger))

/-- The commands issued since they were last taken. -/
def takeCommands (i : Instance τ) : Instance τ × List Command :=
  ({ i with machine := { i.machine with commands := #[] } }, i.machine.commands.toList)

/-- The number of frame slots allocated at loading. -/
def stackSlots (i : Instance τ) : Nat := i.machine.locals.size

/-- The value of the first global of a name. -/
def global? (i : Instance τ) (name : String) : Option Int64 := do
  let script ← i.script
  let slot ← script.program.globals.findIdx? fun global => global.name == name
  i.machine.globals[slot]?

end Instance

end NodeScript
