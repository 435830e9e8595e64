import Mathlib.Logic.Function.Iterate
import NodeScript.Execution.Scene
import NodeScript.Proofs.Execution.Alike
import NodeScript.Proofs.SortedMap

/-!
Frames of a scene in closed form. As long as no object's functions answer differently for what
other objects have called, a frame is one update of every instance by itself, and then the joint
effect of all commands: what any of them deletes is gone, and what is left has been sent every
event.
-/
namespace NodeScript

/-- What can be done with a scene. -/
inductive Action (τ : Type)
  | spawn (id : ObjectId) (record : ComponentRecord)
  | activate (id : ObjectId)
  | trigger (id : ObjectId) (trigger : Trigger)
  | despawn (id : ObjectId)
  | tick (frame : τ)

/-- Whether a command sends an event to an object. -/
def Command.sendsTo (id : ObjectId) : Command → Bool
  | deleteObject _ => false
  | sendEvent target _ _ _ => target == id

namespace Scene

variable {τ : Type}

/-- What is found under an identifier after a trigger. -/
theorem actor?_trigger (s : Scene τ) (id other : ObjectId) (trigger : Trigger) (j : Journal) :
    (s.trigger id trigger j).1.actor? other =
      (s.actor? other).map fun actor =>
        if other = id then ⟨actor.record, (actor.script.trigger trigger j).1⟩ else actor := by
  unfold Scene.trigger
  cases found : s.actor? id with
  | none =>
    by_cases same : other = id
    · subst same
      simp [found]
    · simp [same]
  | some actor =>
    have changed := s.actors.find?_insert id other
      ⟨actor.record, (actor.script.trigger trigger j).1⟩
    refine changed.trans ?_
    by_cases same : other = id
    · subst same
      simp [found]
    · simp [same, actor?]

/-- The script after an event. -/
def afterEvent (j : Journal) (i : Instance τ) : Instance τ := (i.trigger .event j).1

/-- What is found under an identifier after commands. -/
theorem actor?_applyAll (commands : List Command) (s : Scene τ) (j k : Journal) (id : ObjectId) :
    (s.applyAll commands j).1.actor? id =
      if .deleteObject id ∈ commands then none
      else (s.actor? id).map fun actor =>
        ⟨actor.record, (afterEvent k)^[commands.countP (·.sendsTo id)] actor.script⟩ := by
  induction commands generalizing s j with
  | nil => simp [applyAll]
  | cons command rest ih =>
    rw [applyAll, ih]
    cases command with
    | deleteObject object =>
      have erased : (s.apply (.deleteObject object) j).1.actor? id =
          if id = object then none else s.actor? id := s.actors.find?_erase object id
      rw [erased]
      by_cases same : id = object
      · simp [same]
      · simp [same, Command.sendsTo]
    | sendEvent target sender eventType value =>
      have sent : (s.apply (.sendEvent target sender eventType value) j).1.actor? id =
          (s.actor? id).map fun actor =>
            if id = target then ⟨actor.record, afterEvent k actor.script⟩ else actor := by
        have alike (i : Instance τ) : (i.trigger .event j).1 = afterEvent k i :=
          i.trigger_alike .event j k
        simp only [apply, actor?_trigger, alike]
      rw [sent]
      by_cases same : id = target
      · subst same
        simp [Command.sendsTo, Function.comp_def]
      · simp [same, Command.sendsTo, Ne.symm same]

/-- The identifiers are in ascending order, each once. -/
def Ascending (s : Scene τ) : Prop := s.actors.Ascending

theorem Ascending.put {s : Scene τ} (ascending : s.Ascending) (id : ObjectId)
    (actor : Actor τ) : (s.put id actor).Ascending := SortedMap.Ascending.insert ascending id actor

theorem Ascending.despawn {s : Scene τ} (ascending : s.Ascending) (id : ObjectId) :
    (s.despawn id).1.Ascending := SortedMap.Ascending.erase ascending id

theorem Ascending.trigger {s : Scene τ} (ascending : s.Ascending) (id : ObjectId)
    (trigger : Trigger) (j : Journal) : (s.trigger id trigger j).1.Ascending := by
  unfold Scene.trigger
  split
  · exact ascending
  · exact ascending.put _ _

theorem Ascending.applyAll (commands : List Command) {s : Scene τ} (ascending : s.Ascending)
    (j : Journal) : (s.applyAll commands j).1.Ascending := by
  induction commands generalizing s j with
  | nil => exact ascending
  | cons command rest ih =>
    rw [Scene.applyAll]
    cases command with
    | deleteObject object => exact ih (ascending.despawn object) _
    | sendEvent target sender eventType value => exact ih (ascending.trigger target .event j) _

variable [Elapsed τ]

theorem keys_updateActors (frame : τ) (actors : List (ObjectId × Actor τ)) (j : Journal) :
    (updateActors frame actors j).1.map (·.1) = actors.map (·.1) := by
  induction actors generalizing j with
  | nil => rfl
  | cons entry rest ih => simp [updateActors, ih]

theorem Ascending.tick {s : Scene τ} (ascending : s.Ascending) (frame : τ) (j : Journal) :
    (s.tick frame j).1.Ascending := by
  have updated : Ascending ⟨⟨(updateActors frame s.actors.entries j).1⟩⟩ := by
    unfold Ascending SortedMap.Ascending
    rw [keys_updateActors]
    exact ascending
  exact updated.applyAll _ _

/-- One instance updated by itself, with its commands taken. -/
def alone (frame : τ) (j : Journal) (actor : Actor τ) : Actor τ × List Command :=
  let (script, commands) := (actor.script.update frame j).1.takeCommands
  (⟨actor.record, script⟩, commands)

/-- No actor's functions answer differently for the calls that those before it make. -/
def Unmoved (frame : τ) (j k : Journal) (actors : List (ObjectId × Actor τ)) : Prop :=
  ∀ before id actor after, actors = before ++ (id, actor) :: after →
    Journal.Alike actor.script.machine.bound (updateActors frame before j).2.2 k

theorem updateActors_eq (frame : τ) (k : Journal) (actors : List (ObjectId × Actor τ))
    (j : Journal) (unmoved : Unmoved frame j k actors) :
    (updateActors frame actors j).1 =
        actors.map (fun entry => (entry.1, (alone frame k entry.2).1)) ∧
      (updateActors frame actors j).2.1 =
        actors.flatMap fun entry => (alone frame k entry.2).2 := by
  induction actors generalizing j with
  | nil => exact ⟨rfl, rfl⟩
  | cons entry rest ih =>
    obtain ⟨id, actor⟩ := entry
    -- The first actor finds another journal than it does alone, but one after which its functions
    -- answer alike.
    have first : (actor.script.update frame j).1 = (actor.script.update frame k).1 :=
      actor.script.update_alike frame (unmoved [] id actor rest rfl)
    obtain ⟨actors', commands'⟩ := ih (actor.script.update frame j).2
      fun before id' actor' after split =>
        unmoved ((id, actor) :: before) id' actor' after (by rw [split, List.cons_append])
    constructor
    · rw [updateActors, List.map_cons, ← actors']
      simp only [alone, ← first]
    · rw [updateActors, List.flatMap_cons, ← commands']
      simp only [alone, ← first]

/-- The functions of no object answer differently for the calls that other objects make in a
frame. -/
def Undisturbed (s : Scene τ) (frame : τ) (j : Journal) : Prop :=
  Unmoved frame j j s.actors.entries

theorem updateActors_spares (frame : τ) (actors : List (ObjectId × Actor τ)) (j : Journal)
    (function : Nat)
    (unbound : ∀ entry ∈ actors, ∀ f, some f ∈ entry.2.script.machine.bound → f.id ≠ function) :
    (updateActors frame actors j).2.2.history function = j.history function := by
  induction actors generalizing j with
  | nil => rfl
  | cons entry rest ih =>
    obtain ⟨first, others⟩ := List.forall_mem_cons.mp unbound
    exact (ih (entry.2.script.update frame j).2 others).trans
      (entry.2.script.update_spares frame j function first)

/-- Functions whose results do not depend on earlier calls, and functions that no two objects
share, do not let one object disturb another. -/
theorem undisturbed_of_separate {s : Scene τ}
    (separate : s.actors.entries.Pairwise fun earlier later =>
      ∀ f, some f ∈ later.2.script.machine.bound → f.Oblivious ∨
        ∀ g, some g ∈ earlier.2.script.machine.bound → g.id ≠ f.id)
    (frame : τ) (j : Journal) : s.Undisturbed frame j := by
  intro before id actor after split f member own argument
  rw [split] at separate
  have apart := (List.pairwise_append.mp separate).2.2
  by_cases oblivious : f.Oblivious
  · exact oblivious _ _ argument
  · rw [updateActors_spares frame before j f.id]
    intro entry earlier g shared
    exact (apart entry earlier (id, actor) (List.mem_cons_self ..) f member).resolve_left
      oblivious g shared

def act (stage : Stage) (s : Scene τ) (j : Journal) : Action τ → Scene τ × Journal
  | .spawn id record => s.spawn stage id record j
  | .activate id =>
    let (s, _, j) := s.activate stage id j
    (s, j)
  | .trigger id trigger => s.trigger id trigger j
  | .despawn id => ((s.despawn id).1, j)
  | .tick frame =>
    let (s, _, j) := s.tick frame j
    (s, j)

def actAll (stage : Stage) : List (Action τ) → Scene τ → Journal → Scene τ × Journal
  | [], s, j => (s, j)
  | action :: rest, s, j =>
    let (s, j) := s.act stage j action
    actAll stage rest s j

theorem Ascending.act {s : Scene τ} (ascending : s.Ascending) (stage : Stage)
    (action : Action τ) (j : Journal) : (s.act stage j action).1.Ascending := by
  cases action with
  | spawn id record =>
    simp only [Scene.act, spawn]
    split
    · exact ascending.put _ _
    · exact ascending.put _ _
  | activate id =>
    simp only [Scene.act, activate]
    split
    · exact ascending
    · split
      · exact ascending.put _ _
      · exact ascending
  | trigger id trigger => exact ascending.trigger id trigger j
  | despawn id => exact ascending.despawn id
  | tick frame => exact ascending.tick frame j

theorem Ascending.actAll (stage : Stage) (actions : List (Action τ)) {s : Scene τ}
    (ascending : s.Ascending) (j : Journal) : (Scene.actAll stage actions s j).1.Ascending := by
  induction actions generalizing s j with
  | nil => exact ascending
  | cons action rest ih => exact ih (ascending.act stage action j) _

end Scene

/-- A frame of a scene, however it was reached, is one update of every instance by itself, in
ascending order of identifiers, and then the effect of all commands: an object is left exactly if no
command deletes it, and what is left has been sent each event once. This takes functions that do not
answer one object differently for what others have called. -/
theorem frame_eq_updates_alone {τ : Type} [Elapsed τ] (stage : Stage) (actions : List (Action τ))
    (start : Journal) (frame : τ)
    (undisturbed : (Scene.actAll stage actions .empty start).1.Undisturbed frame
      (Scene.actAll stage actions .empty start).2) :
    let s := (Scene.actAll stage actions .empty start).1
    let j := (Scene.actAll stage actions .empty start).2
    let next := (s.tick frame j).1
    let commands := (s.tick frame j).2.1
    (s.actors.entries.map (·.1)).Pairwise (· < ·) ∧
      commands = s.actors.entries.flatMap (fun entry => (Scene.alone frame j entry.2).2) ∧
      (next.actors.entries.map (·.1)).Pairwise (· < ·) ∧
      ∀ id, next.actor? id =
        if .deleteObject id ∈ commands then none
        else (s.actor? id).map fun actor =>
          ⟨actor.record, (fun i => (i.trigger .event j).1)^[commands.countP (·.sendsTo id)]
            (Scene.alone frame j actor).1.script⟩ := by
  have ascending : (Scene.actAll stage actions .empty start).1.Ascending :=
    Scene.Ascending.actAll stage actions SortedMap.ascending_empty start
  generalize Scene.actAll stage actions .empty start = reached at undisturbed ascending
  obtain ⟨s, j⟩ := reached
  obtain ⟨actors, commands⟩ := Scene.updateActors_eq frame j s.actors.entries j undisturbed
  refine ⟨ascending, commands, ascending.tick frame j, fun id => ?_⟩
  have updated : Scene.actor? ⟨⟨(Scene.updateActors frame s.actors.entries j).1⟩⟩ id =
      (s.actor? id).map fun actor => (Scene.alone frame j actor).1 := by
    rw [actors]
    exact SortedMap.find?_mapValues s.actors.entries (fun actor => (Scene.alone frame j actor).1) id
  simp only [Scene.tick, Scene.actor?_applyAll _ _ _ j, updated, Option.map_map]
  rfl

/-- Removes one object and sends an event to it and to another, with a function to call first. -/
def Program.cull : Program :=
  { code := #[.call 1 (.constant 4) 0, .sendEvent (.constant 3) (.constant 7) (.constant 1),
      .deleteObject (.constant 3), .sendEvent (.constant 2) (.constant 7) (.global 0), .finish]
    entries := ⟨some 0, none, none⟩
    globals := #[⟨"result", .number, 0⟩, ⟨"f", .function 0xF, 0⟩]
    maxLocals := 0 }

/-- Does nothing, at once and at each event. -/
def Program.listen : Program :=
  { code := #[.finish], entries := ⟨some 0, some 0, none⟩, globals := #[], maxLocals := 0 }

/-- The first object removes the third and wakes the second, which had come to rest. -/
theorem frame_eq_updates_alone_cull :
    let stage : Stage :=
      { table := ⟨[⟨5, "cull", "script_cull", .cull, 0, ""⟩,
          ⟨6, "listen", "script_listen", .listen, 0, ""⟩]⟩
        registry := Registry.empty.register 0xF fun _ argument => argument.toInt32
        config := .standard }
    let frame : Millis := ⟨Format.double.ofNat 16⟩
    let reached := Scene.actAll stage
      [.spawn 3 ⟨1, true, false⟩, .spawn 1 ⟨0, true, false⟩, .spawn 2 ⟨1, true, false⟩] .empty .empty
    reached.1.Undisturbed frame reached.2 ∧
      let ticked := reached.1.tick frame reached.2
      ticked.2.1 = [.sendEvent 3 1 7 1, .deleteObject 3, .sendEvent 2 1 7 4] ∧
        (ticked.1.actor? 3).isNone ∧
        (ticked.1.actor? 2).map (·.script.phase) = some .running := by
  intro stage frame reached
  have unbound : reached.1.actors.entries.Pairwise fun _ later =>
      later.2.script.machine.bound.size = 0 := by decide +kernel
  have undisturbed : reached.1.Undisturbed frame reached.2 :=
    Scene.undisturbed_of_separate (unbound.imp fun empty f member =>
      absurd member (by simp [Array.eq_empty_of_size_eq_zero empty])) frame reached.2
  obtain ⟨-, commands, -, actors⟩ := frame_eq_updates_alone stage _ _ frame undisturbed
  refine ⟨undisturbed, commands.trans (by decide +kernel), ?_, ?_⟩
  · rw [actors 3]
    decide +kernel
  · rw [actors 2]
    decide +kernel

end NodeScript
