import NodeScript.Component
import NodeScript.Execution.Instance

/-!
Scenes: the scripted objects that live together. A tick gives every object one turn in ascending
order of identifiers; only then are the commands that were issued applied, in the order in which
they were issued.
-/
namespace NodeScript

/-- What all objects of a scene share and nothing changes. -/
structure Stage where
  table : Table
  registry : Registry
  config : Config

/-- An object with its component and its script. -/
structure Actor (τ : Type) where
  record : ComponentRecord
  script : Instance τ

structure Scene (τ : Type) where
  actors : SortedMap ObjectId (Actor τ)

namespace Stage

variable {τ : Type}

/-- Loads the script of a component. -/
def load (stage : Stage) (i : Instance τ) (record : ComponentRecord) (j : Journal) :
    Instance τ × Journal :=
  i.load stage.table stage.registry record.assetIndex.toNat stage.config j

/-- A new instance with the script at an index. -/
def instantiate (stage : Stage) (owner : ObjectId) (index : Nat) (j : Journal) :
    Instance τ × Journal :=
  (Instance.new owner).load stage.table stage.registry index stage.config j

end Stage

namespace Scene

variable {τ : Type}

def empty : Scene τ := ⟨.empty⟩

def size (s : Scene τ) : Nat := s.actors.size

def actor? (s : Scene τ) (id : ObjectId) : Option (Actor τ) := s.actors.find? id

/-- Puts an actor in the place of its identifier. -/
def put (s : Scene τ) (id : ObjectId) (actor : Actor τ) : Scene τ := ⟨s.actors.insert id actor⟩

/-- Adds an object, in place of one with its identifier. -/
def spawn (s : Scene τ) (stage : Stage) (id : ObjectId) (record : ComponentRecord)
    (j : Journal) : Scene τ × Journal :=
  if record.autoRun then
    let (script, j) := stage.load (.new id) record j
    (s.put id ⟨record, script⟩, j)
  else (s.put id ⟨record, .new id⟩, j)

/-- Starts a script that was never loaded, or a repeatable one that has finished. The flag tells
whether it starts. -/
def activate (s : Scene τ) (stage : Stage) (id : ObjectId) (j : Journal) :
    Scene τ × Bool × Journal :=
  match s.actor? id with
  | none => (s, false, j)
  | some actor =>
    if actor.script.phase = .unloaded
        ∨ (actor.script.phase = .finished ∧ actor.record.repeatable) then
      let (script, j) := stage.load actor.script actor.record j
      (s.put id ⟨actor.record, script⟩, true, j)
    else (s, false, j.report (.activationIgnored id actor.script.phase))

def trigger (s : Scene τ) (id : ObjectId) (trigger : Trigger) (j : Journal) :
    Scene τ × Journal :=
  match s.actor? id with
  | none => (s, j)
  | some actor =>
    let (script, j) := actor.script.trigger trigger j
    (s.put id ⟨actor.record, script⟩, j)

/-- Removes an object; the flag tells whether there was one. -/
def despawn (s : Scene τ) (id : ObjectId) : Scene τ × Bool :=
  (⟨s.actors.erase id⟩, (s.actor? id).isSome)

/-- One turn for each actor, with the commands that they issue. -/
def updateActors [Elapsed τ] (frame : τ) :
    List (ObjectId × Actor τ) → Journal → List (ObjectId × Actor τ) × List Command × Journal
  | [], j => ([], [], j)
  | (id, actor) :: rest, j =>
    let (script, j) := actor.script.update frame j
    let (script, commands) := script.takeCommands
    let (others, more, j) := updateActors frame rest j
    ((id, ⟨actor.record, script⟩) :: others, commands ++ more, j)

/-- Applies one command: a deleted object leaves, and an event triggers its target. -/
def apply (s : Scene τ) (command : Command) (j : Journal) : Scene τ × Journal :=
  match command with
  | .deleteObject object =>
    let (s, present) := s.despawn object
    (s, if present then j.report (.deletedByScript object) else j)
  | .sendEvent target _ _ _ => s.trigger target .event j

def applyAll (s : Scene τ) : List Command → Journal → Scene τ × Journal
  | [], j => (s, j)
  | command :: rest, j =>
    let (s, j) := s.apply command j
    s.applyAll rest j

/-- One frame of the scene, with all commands in the order in which they were issued. -/
def tick [Elapsed τ] (s : Scene τ) (frame : τ) (j : Journal) :
    Scene τ × List Command × Journal :=
  let (actors, commands, j) := updateActors frame s.actors.entries j
  let (s, j) := applyAll ⟨⟨actors⟩⟩ commands j
  (s, commands, j)

end Scene

end NodeScript
