import NodeScript.Proofs.Execution.Isolation
import NodeScript.Proofs.Execution.Triggers

/-!
Restarts of scripts in a scene. What happens to a scene is, for each of its objects, a series of
deeds: the object comes, is activated or triggered, lives through frames and goes. An activation
that starts a script leaves nothing of what the script has done before. A script that may not be
repeated has one start, and no deed but the coming of another object gives it one back.
-/
namespace NodeScript

open Journal (Alike)

/-- What happens to an object of a scene. -/
inductive Deed (τ : Type)
  | spawned (record : ComponentRecord)
  | activated
  | triggered (trigger : Trigger)
  | removed
  /-- A frame passes; the journal is the one that the object finds at its turn. -/
  | updated (frame : τ) (journal : Journal)

/-- What is told of the life of an object. -/
inductive Chapter
  | loaded
  | milestone (milestone : Milestone)
  deriving DecidableEq

/-- What a command does to an object. -/
def Command.deed? {τ : Type} (x : ObjectId) : Command → Option (Deed τ)
  | deleteObject object => if object = x then some .removed else none
  | sendEvent target _ _ _ => if target = x then some (.triggered .event) else none

namespace Stage

variable {τ : Type}

/-- The script of a component, or the one that stands in for it. -/
def scriptOf (stage : Stage) (record : ComponentRecord) : Script :=
  (stage.table.get? record.assetIndex.toNat).getD .dummy

theorem load_eq_bind (stage : Stage) (i : Instance τ) (record : ComponentRecord) (j k : Journal) :
    (stage.load i record j).1 =
      (i.bind (stage.scriptOf record) stage.registry stage.config k).1 := by
  unfold Stage.load Instance.load scriptOf
  cases stage.table.get? record.assetIndex.toNat <;> rfl

/-- An object as it comes. -/
def newcomer (stage : Stage) (x : ObjectId) (record : ComponentRecord) : Actor τ :=
  ⟨record, if record.autoRun then (stage.load (.new x) record .empty).1 else .new x⟩

/-- Loading tells of itself and of the entry that starts. -/
def loading (stage : Stage) (record : ComponentRecord) : List Chapter :=
  .loaded :: (Instance.opening (stage.scriptOf record)).map .milestone

end Stage

/-- Whether an activation starts the script. -/
def Actor.Starts {τ : Type} (actor : Actor τ) : Prop :=
  actor.script.phase = .unloaded ∨ actor.script.phase = .finished ∧ actor.record.repeatable

instance {τ : Type} (actor : Actor τ) : Decidable actor.Starts :=
  inferInstanceAs (Decidable (_ ∨ _))

namespace Deed

variable {τ : Type} [Elapsed τ] (stage : Stage) (x : ObjectId)

/-- What a deed makes of an object, which may be absent. -/
def outcome (before : Option (Actor τ)) : Deed τ → Option (Actor τ)
  | spawned record => some (stage.newcomer x record)
  | activated => before.map fun actor =>
    if actor.Starts then ⟨actor.record, (stage.load actor.script actor.record .empty).1⟩ else actor
  | triggered trigger => before.map fun actor =>
    ⟨actor.record, (actor.script.trigger trigger .empty).1⟩
  | removed => none
  | updated frame j => before.map fun actor => (Scene.alone frame j actor).1

/-- What a deed adds to what is told of an object. -/
def chapters (before : Option (Actor τ)) : Deed τ → List Chapter
  | spawned record => if record.autoRun then stage.loading record else []
  | activated => before.elim [] fun actor =>
    if actor.Starts then stage.loading actor.record else []
  | triggered trigger => before.elim [] fun actor =>
    (actor.script.milestones (actor.script.trigger trigger .empty).1 (.trigger trigger) :
      List Milestone).map .milestone
  | removed => []
  | updated frame j => before.elim [] fun actor =>
    (actor.script.milestones (actor.script.update frame j).1 (.update frame)).map .milestone

/-- An object after deeds. -/
def outcomeAll (before : Option (Actor τ)) (deeds : List (Deed τ)) : Option (Actor τ) :=
  deeds.foldl (outcome stage x) before

/-- All that is told of an object. -/
def story : Option (Actor τ) → List (Deed τ) → List Chapter
  | _, [] => []
  | before, deed :: rest =>
    deed.chapters stage before ++ story (deed.outcome stage x before) rest

/-- Where a deed comes from: actions bring objects, actions and events trigger them. -/
def Arises (actions : List (Action τ)) : Deed τ → Prop
  | spawned record => .spawn x record ∈ actions
  | triggered trigger => trigger = .event ∨ .trigger x trigger ∈ actions
  | _ => True

end Deed

namespace Scene

variable {τ : Type} [Elapsed τ]

/-- What an action comes to for an object. -/
def deeds (x : ObjectId) (s : Scene τ) (j : Journal) : Action τ → List (Deed τ)
  | .spawn id record => if id = x then [.spawned record] else []
  | .activate id => if id = x then [.activated] else []
  | .trigger id trigger => if id = x then [.triggered trigger] else []
  | .despawn id => if id = x then [.removed] else []
  | .tick frame =>
    .updated frame (heard frame x s.actors.entries j) ::
      (updateActors frame s.actors.entries j).2.1.filterMap (Command.deed? x)

def deedsAll (stage : Stage) (x : ObjectId) :
    List (Action τ) → Scene τ → Journal → List (Deed τ)
  | [], _, _ => []
  | action :: rest, s, j =>
    let (next, k) := s.act stage j action
    s.deeds x j action ++ deedsAll stage x rest next k

theorem outcomeAll_commands (stage : Stage) (x : ObjectId) (commands : List Command)
    (s : Scene τ) (j : Journal) :
    (s.applyAll commands j).1.actor? x =
      Deed.outcomeAll stage x (s.actor? x) (commands.filterMap (Command.deed? x)) := by
  induction commands generalizing s j with
  | nil => rfl
  | cons command rest ih =>
    rw [applyAll, ih]
    cases command with
    | deleteObject object =>
      have erased : (s.apply (.deleteObject object) j).1.actor? x =
          if x = object then none else s.actor? x := s.actor?_despawn object x
      rw [erased]
      by_cases same : object = x
      · subst same
        simp [Command.deed?, Deed.outcomeAll, Deed.outcome]
      · simp [Command.deed?, same, Ne.symm same]
    | sendEvent target sender eventType value =>
      have sent := s.actor?_trigger target x .event j
      rw [show (s.apply (.sendEvent target sender eventType value) j).1.actor? x = _ from sent]
      by_cases same : target = x
      · subst same
        have alike (i : Instance τ) : (i.trigger .event j).1 = (i.trigger .event .empty).1 :=
          i.trigger_alike .event j .empty
        simp [Command.deed?, Deed.outcomeAll, Deed.outcome, alike]
      · simp [Command.deed?, same, Ne.symm same]

/-- The deeds of an action make of an object what the action makes of it. -/
theorem actor?_act {s : Scene τ} (ascending : s.Ascending) (stage : Stage) (x : ObjectId)
    (j : Journal) (action : Action τ) :
    (s.act stage j action).1.actor? x =
      Deed.outcomeAll stage x (s.actor? x) (s.deeds x j action) := by
  cases action with
  | spawn id record =>
    rw [act, actor?_spawn s stage id x record j .empty]
    by_cases same : id = x
    · simp [deeds, same, Deed.outcomeAll, Deed.outcome, Stage.newcomer]
    · simp [deeds, same, Ne.symm same, Deed.outcomeAll]
  | activate id =>
    refine (actor?_activate s stage id x j .empty).trans ?_
    by_cases same : id = x
    · simp only [deeds, same, true_and, if_true]
      rfl
    · simp [deeds, same, Ne.symm same, Deed.outcomeAll]
  | trigger id trigger =>
    refine (actor?_trigger s id x trigger j).trans ?_
    have alike (i : Instance τ) : (i.trigger trigger j).1 = (i.trigger trigger .empty).1 :=
      i.trigger_alike trigger j .empty
    by_cases same : id = x
    · simp [deeds, same, Deed.outcomeAll, Deed.outcome, alike]
    · simp [deeds, same, Ne.symm same, Deed.outcomeAll]
  | despawn id =>
    refine (s.actor?_despawn id x).trans ?_
    by_cases same : id = x
    · simp [deeds, same, Deed.outcomeAll, Deed.outcome]
    · simp [deeds, same, Ne.symm same, Deed.outcomeAll]
  | tick frame =>
    obtain ⟨turned, -⟩ := turn_eq frame x (heard frame x s.actors.entries j) s.actors.entries j
      ascending fun actor _ => Alike.refl _ _
    refine (outcomeAll_commands stage x _ _ _).trans ?_
    rw [show Scene.actor? _ x = _ from turned]
    rfl

theorem actor?_actAll (stage : Stage) (x : ObjectId) (actions : List (Action τ)) {s : Scene τ}
    (ascending : s.Ascending) (j : Journal) :
    (actAll stage actions s j).1.actor? x =
      Deed.outcomeAll stage x (s.actor? x) (deedsAll stage x actions s j) := by
  induction actions generalizing s j with
  | nil => rfl
  | cons action rest ih =>
    rw [actAll, ih (ascending.act stage action j), actor?_act ascending, deedsAll,
      Deed.outcomeAll, Deed.outcomeAll, Deed.outcomeAll, List.foldl_append]

/-- What is done with an object has been asked for, but for frames and events. -/
theorem deeds_arise (x : ObjectId) (s : Scene τ) (j : Journal) (action : Action τ)
    {actions : List (Action τ)} (asked : action ∈ actions) :
    ∀ deed ∈ s.deeds x j action, deed.Arises x actions := by
  cases action with
  | tick frame =>
    refine List.forall_mem_cons.mpr ⟨trivial, fun deed member => ?_⟩
    obtain ⟨command, -, does⟩ := List.mem_filterMap.mp member
    cases command with
    | deleteObject object =>
      obtain ⟨-, ⟨⟩⟩ := Option.ite_none_right_eq_some.mp does
      trivial
    | sendEvent target sender eventType value =>
      obtain ⟨-, ⟨⟩⟩ := Option.ite_none_right_eq_some.mp does
      exact .inl rfl
  | spawn id record =>
    by_cases same : id = x
    · subst same
      simpa [deeds, Deed.Arises] using asked
    · simp [deeds, same]
  | trigger id trigger =>
    by_cases same : id = x
    · subst same
      simpa [deeds, Deed.Arises] using .inr asked
    · simp [deeds, same]
  | activate id | despawn id =>
    by_cases same : id = x <;> simp [deeds, same, Deed.Arises]

theorem deedsAll_arise (stage : Stage) (x : ObjectId) {asked : List (Action τ)}
    (actions : List (Action τ)) (among : actions ⊆ asked) (s : Scene τ) (j : Journal) :
    ∀ deed ∈ deedsAll stage x actions s j, deed.Arises x asked := by
  induction actions generalizing s j with
  | nil => exact nofun
  | cons action rest ih =>
    obtain ⟨first, others⟩ := List.cons_subset.mp among
    exact List.forall_mem_append.mpr ⟨s.deeds_arise x j action first, ih others _ _⟩

end Scene

namespace Instance

variable {τ : Type}

theorem owner_trigger (i : Instance τ) (trigger : Trigger) (j : Journal) :
    (i.trigger trigger j).1.owner = i.owner := by
  rcases i.trigger_cases trigger j with ⟨same, -⟩ | ⟨_, _, ⟨_, started⟩ | ⟨_, _, queued⟩⟩
  · rw [same]
  · rw [started]
    rfl
  · rw [queued]
    rfl

variable [Elapsed τ]

theorem Consistent.owner_update {i : Instance τ} (consistent : i.Consistent) (frame : τ)
    (j : Journal) : (i.update frame j).1.owner = i.owner := by
  rcases consistent.update_cases frame j with
    ⟨-, same⟩ | ⟨-, script, pace, m, k, -, -, shape, -, outcome⟩
  · rw [same]
  · have kept : m.owner = i.machine.owner := congrArg Prod.fst shape
    rcases outcome with ⟨-, next⟩ | ⟨-, -, next⟩ | ⟨-, _, _, _, -, -, next⟩ <;>
      exact (congrArg (·.1.owner) next).trans kept

/-- Nothing is asked of a script before it is loaded. -/
theorem Consistent.serve_unloaded {i : Instance τ} (consistent : i.Consistent)
    (unloaded : i.phase = .unloaded) (request : Request τ) (j : Journal) :
    (i.serve j request).1 = i := by
  cases request with
  | update frame => simp only [serve, Instance.update, unloaded]
  | trigger trigger => simp only [serve, Instance.trigger, consistent.unloaded.mp unloaded]

/-- No request starts the entry for `init` that does not ask for it. -/
theorem Consistent.serve_uncalled {i : Instance τ} (consistent : i.Consistent)
    (uncalled : .init ∉ i.pending) {request : Request τ} (other : .init ∉ i.accepted request)
    (j : Journal) :
    let next := (i.serve j request).1
    .began .init ∉ i.milestones next request ∧ .init ∉ next.pending ∧ next.Consistent ∧
      (next.phase = .unloaded ↔ i.phase = .unloaded) := by
  intro next
  by_cases unloaded : i.phase = .unloaded
  · have same : next = i := consistent.serve_unloaded unloaded request j
    rw [same]
    refine ⟨?_, uncalled, consistent, Iff.rfl⟩
    cases request <;> simp [milestones, unloaded]
  · have served : Served i next request := consistent.served unloaded request j
    have outside : .init ∉ Milestone.begun (i.milestones next request) ++ next.pending := by
      rw [served.order]
      exact List.not_mem_append uncalled other
    rw [List.mem_append, not_or] at outside
    obtain ⟨unbegun, unqueued⟩ := outside
    refine ⟨fun began => unbegun ?_, unqueued, served.consistent, ?_⟩
    · exact List.mem_filterMap.mpr ⟨_, began, rfl⟩
    · simp [served.loaded, unloaded]

end Instance

/-- What holds of every object of a scene. -/
structure Actor.Sound {τ : Type} (x : ObjectId) (actor : Actor τ) : Prop where
  owner : actor.script.owner = x
  consistent : actor.script.Consistent

namespace Stage

variable {τ : Type} (stage : Stage)

theorem sound_load {x : ObjectId} {i : Instance τ} (owner : i.owner = x)
    (record : ComponentRecord) (j : Journal) :
    Actor.Sound x ⟨record, (stage.load i record j).1⟩ := by
  rw [stage.load_eq_bind i record j j]
  exact ⟨owner, i.consistent_bind (stage.scriptOf record) stage.registry stage.config j⟩

/-- A script that has been loaded is as if it had never done anything. -/
theorem load_afresh {x : ObjectId} {i : Instance τ} (owner : i.owner = x)
    (record : ComponentRecord) (j k : Journal) :
    (stage.load i record j).1 = (stage.load (.new x) record k).1 := by
  subst owner
  rw [stage.load_eq_bind i record j k, stage.load_eq_bind _ record k k]
  rfl

theorem sound_newcomer (x : ObjectId) (record : ComponentRecord) :
    (stage.newcomer x record : Actor τ).Sound x := by
  unfold newcomer
  split
  · exact stage.sound_load (i := .new x) rfl record .empty
  · exact ⟨rfl, Instance.consistent_new x⟩

theorem count_loading (record : ComponentRecord) :
    (stage.loading record).count .loaded = 1 ∧
      (stage.loading record).count (.milestone (.began .init)) ≤ 1 := by
  unfold loading Instance.opening
  split <;> decide

end Stage

namespace Deed

variable {τ : Type} [Elapsed τ] (stage : Stage) (x : ObjectId)

theorem sound_outcome {before : Option (Actor τ)} (sound : ∀ actor ∈ before, actor.Sound x)
    (deed : Deed τ) : ∀ actor ∈ deed.outcome stage x before, actor.Sound x := by
  cases deed with
  | spawned record =>
    rintro actor ⟨⟩
    exact stage.sound_newcomer x record
  | removed => exact fun actor present => absurd present (Option.not_mem_none actor)
  | activated =>
    intro after made
    obtain ⟨actor, found, rfl⟩ := Option.map_eq_some_iff.mp made
    split
    · exact stage.sound_load (sound actor found).owner actor.record .empty
    · exact sound actor found
  | triggered trigger =>
    intro after made
    obtain ⟨actor, found, rfl⟩ := Option.map_eq_some_iff.mp made
    obtain ⟨owner, consistent⟩ := sound actor found
    exact ⟨(actor.script.owner_trigger trigger .empty).trans owner,
      consistent.trigger trigger .empty⟩
  | updated frame j =>
    intro after made
    obtain ⟨actor, found, rfl⟩ := Option.map_eq_some_iff.mp made
    obtain ⟨owner, consistent⟩ := sound actor found
    exact ⟨(consistent.owner_update frame j).trans owner,
      (consistent.update frame j).takeCommands⟩

theorem sound_outcomeAll (deeds : List (Deed τ)) {before : Option (Actor τ)}
    (sound : ∀ actor ∈ before, actor.Sound x) :
    ∀ actor ∈ outcomeAll stage x before deeds, actor.Sound x := by
  induction deeds generalizing before with
  | nil => exact sound
  | cons deed rest ih => exact ih (sound_outcome stage x sound deed)

end Deed

/-- What holds of an object that may not be repeated while nobody asks for its start. -/
structure Actor.OneShot {τ : Type} (actor : Actor τ) : Prop where
  once : actor.record.repeatable = false
  consistent : actor.script.Consistent
  uncalled : .init ∉ actor.script.pending

/-- How often an object that may not be repeated can still be loaded. -/
def Actor.chances {τ : Type} (actor : Actor τ) : Nat :=
  if actor.script.phase = .unloaded then 1 else 0

/-- What is told of an object that may not be repeated uses up its chances. -/
structure Spent {τ : Type} (before after : Option (Actor τ)) (told : List Chapter) : Prop where
  oneShot : ∀ actor ∈ after, actor.OneShot
  loads : told.count .loaded + after.elim 0 Actor.chances ≤ before.elim 0 Actor.chances
  begins : told.count (.milestone (.began .init)) + after.elim 0 Actor.chances ≤
    before.elim 0 Actor.chances

namespace Spent

variable {τ : Type}

theorem refl {before : Option (Actor τ)} (oneShot : ∀ actor ∈ before, actor.OneShot) :
    Spent before before [] :=
  ⟨oneShot, by simp, by simp⟩

theorem trans {before middle after : Option (Actor τ)} {told later : List Chapter}
    (first : Spent before middle told) (second : Spent middle after later) :
    Spent before after (told ++ later) := by
  obtain ⟨-, loads, begins⟩ := first
  obtain ⟨oneShot, loads', begins'⟩ := second
  refine ⟨oneShot, ?_, ?_⟩
  · rw [List.count_append]
    omega
  · rw [List.count_append]
    omega

/-- A start uses up the one chance. -/
theorem load {actor : Actor τ} (own : actor.OneShot) (starts : actor.Starts) (stage : Stage)
    (j : Journal) :
    Spent (some actor) (some ⟨actor.record, (stage.load actor.script actor.record j).1⟩)
      (stage.loading actor.record) := by
  have unloaded : actor.script.phase = .unloaded :=
    starts.resolve_right fun again => by simp [own.once] at again
  obtain ⟨loads, begins⟩ := stage.count_loading actor.record
  rw [stage.load_eq_bind _ _ j j]
  have spent : Actor.chances ⟨actor.record, (actor.script.bind (stage.scriptOf actor.record)
      stage.registry stage.config j).1⟩ = 0 := if_neg nofun
  have chance : actor.chances = 1 := if_pos unloaded
  refine ⟨?_, ?_, ?_⟩
  · rintro after ⟨⟩
    exact ⟨own.once, Instance.consistent_bind _ _ _ _ j, nofun⟩
  · simp only [Option.elim_some, spent, chance, loads, Nat.add_zero, Nat.le_refl]
  · simpa only [Option.elim_some, spent, chance, Nat.add_zero] using begins

/-- An object comes with one chance, which it takes at once if it starts by itself. -/
theorem spawn {record : ComponentRecord} (once : record.repeatable = false) (stage : Stage)
    (x : ObjectId) :
    Spent (some (⟨record, .new x⟩ : Actor τ)) (some (stage.newcomer x record))
      (if record.autoRun then stage.loading record else []) := by
  have oneShot : Actor.OneShot (⟨record, .new x⟩ : Actor τ) :=
    ⟨once, Instance.consistent_new x, List.not_mem_nil⟩
  unfold Stage.newcomer
  split
  · exact .load oneShot (.inl rfl) stage .empty
  · refine .refl ?_
    rintro actor ⟨⟩
    exact oneShot

variable [Elapsed τ]

/-- A request that does not ask for the start leaves the chance as it is. -/
theorem serve {actor : Actor τ} (own : actor.OneShot) {request : Request τ}
    (other : .init ∉ actor.script.accepted request) (j : Journal) :
    Spent (some actor) (some ⟨actor.record, (actor.script.serve j request).1⟩)
      ((actor.script.milestones (actor.script.serve j request).1 request).map .milestone) := by
  obtain ⟨unbegun, uncalled, consistent, loaded⟩ :=
    own.consistent.serve_uncalled own.uncalled other j
  generalize (actor.script.serve j request).1 = next at unbegun uncalled consistent loaded ⊢
  have kept : Actor.chances ⟨actor.record, next⟩ = actor.chances := by
    simp only [Actor.chances, loaded]
  refine ⟨?_, ?_, ?_⟩
  · rintro after ⟨⟩
    exact ⟨own.once, consistent, uncalled⟩
  · rw [List.count_eq_zero_of_not_mem (by simp), Nat.zero_add]
    exact Nat.le_of_eq kept
  · rw [List.count_eq_zero_of_not_mem (by simpa using unbegun), Nat.zero_add]
    exact Nat.le_of_eq kept

end Spent

namespace Deed

variable {τ : Type} [Elapsed τ] (stage : Stage) (x : ObjectId)

/-- Nothing gives an object its chance back but that it is spawned anew. -/
theorem spends {before : Option (Actor τ)} (oneShot : ∀ actor ∈ before, actor.OneShot)
    {deed : Deed τ} (unspawned : ∀ record, deed ≠ .spawned record)
    (unasked : deed ≠ .triggered .init) :
    Spent before (deed.outcome stage x before) (deed.chapters stage before) := by
  cases before with
  | none =>
    have absent : Spent (none : Option (Actor τ)) none [] := .refl oneShot
    cases deed with
    | spawned record => exact absurd rfl (unspawned record)
    | activated | triggered | removed | updated => exact absent
  | some actor =>
    have own := oneShot actor rfl
    cases deed with
    | spawned record => exact absurd rfl (unspawned record)
    | removed =>
      exact ⟨fun after present => absurd present (Option.not_mem_none after), Nat.zero_le _,
        Nat.zero_le _⟩
    | triggered trigger =>
      have other : .init ∉ actor.script.accepted (.trigger trigger : Request τ) := by
        intro asked
        obtain ⟨-, same⟩ : actor.script.Accepts trigger ∧ .init = trigger := by
          simpa [Instance.accepted] using asked
        exact unasked (congrArg _ same.symm)
      have served := Spent.serve own other .empty
      rw [Instance.serve] at served
      exact served
    | updated frame j =>
      have other : .init ∉ actor.script.accepted (.update frame) := List.not_mem_nil
      have served := Spent.serve own other j
      rw [Instance.serve] at served
      refine ⟨?_, served.loads, served.begins⟩
      rintro after ⟨⟩
      obtain ⟨once, consistent, uncalled⟩ := served.oneShot _ rfl
      exact ⟨once, consistent.takeCommands, uncalled⟩
    | activated =>
      unfold outcome chapters
      dsimp only [Option.map_some, Option.elim_some]
      split
      next starts => exact .load own starts stage .empty
      next => exact .refl oneShot

theorem spends_story (deeds : List (Deed τ)) {before : Option (Actor τ)}
    (oneShot : ∀ actor ∈ before, actor.OneShot)
    (each : ∀ deed ∈ deeds, (∀ record, deed ≠ .spawned record) ∧ deed ≠ .triggered .init) :
    Spent before (outcomeAll stage x before deeds) (story stage x before deeds) := by
  induction deeds generalizing before with
  | nil => exact .refl oneShot
  | cons deed rest ih =>
    obtain ⟨⟨unspawned, unasked⟩, others⟩ := List.forall_mem_cons.mp each
    have first := spends stage x oneShot unspawned unasked
    exact first.trans (ih first.oneShot others)

end Deed

namespace Scene

variable {τ : Type}

/-- An activation starts a script afresh or changes nothing. -/
theorem activate_cases (s : Scene τ) (stage : Stage) (x : ObjectId) (j : Journal) :
    (∃ actor, s.actor? x = some actor ∧ actor.Starts ∧ (s.activate stage x j).2.1 = true ∧
        (s.activate stage x j).1 =
          s.put x ⟨actor.record, (stage.load actor.script actor.record j).1⟩) ∨
      (∀ actor, s.actor? x = some actor → ¬ actor.Starts) ∧ (s.activate stage x j).2.1 = false ∧
        (s.activate stage x j).1 = s := by
  unfold activate
  cases found : s.actor? x with
  | none =>
    refine .inr ⟨fun actor present => ?_, rfl, rfl⟩
    exact absurd present (Option.some_ne_none actor).symm
  | some actor =>
    dsimp only
    split
    next starts => exact .inl ⟨actor, rfl, starts, rfl, rfl⟩
    next stays =>
      refine .inr ⟨?_, rfl, rfl⟩
      rintro other ⟨⟩
      exact stays

variable [Elapsed τ]

/-- Every object that a scene comes to have goes by its identifier, and its parts agree. -/
theorem sound_actAll (stage : Stage) (x : ObjectId) (actions : List (Action τ)) (start : Journal) :
    ∀ actor, (actAll stage actions .empty start).1.actor? x = some actor → actor.Sound x := by
  have absent : ∀ actor ∈ (none : Option (Actor τ)), actor.Sound x :=
    fun actor present => absurd present (Option.not_mem_none actor)
  rw [actor?_actAll stage x actions (s := .empty) SortedMap.ascending_empty start]
  exact Deed.sound_outcomeAll stage x _ absent

/-- What happens from where an object that may not be repeated comes, until another comes. -/
theorem spent_story (stage : Stage) (x : ObjectId) {record : ComponentRecord}
    (once : record.repeatable = false) {after : List (Action τ)}
    (unspawned : ∀ other, .spawn x other ∉ after) (unasked : .trigger x .init ∉ after)
    (s : Scene τ) (j : Journal) :
    let deeds := deedsAll stage x (.spawn x record :: after) s j
    Spent (some ⟨record, .new x⟩) (Deed.outcomeAll stage x (s.actor? x) deeds)
      (Deed.story stage x (s.actor? x) deeds) := by
  intro deeds
  have split : deeds = .spawned record :: deedsAll stage x after
      (s.act stage j (.spawn x record)).1 (s.act stage j (.spawn x record)).2 := by
    simp only [deeds, deedsAll, Scene.deeds, if_true, List.singleton_append]
  have first := Spent.spawn (τ := τ) once stage x
  rw [split]
  refine first.trans (Deed.spends_story stage x _ first.oneShot fun deed member => ?_)
  have arises := deedsAll_arise stage x after (List.Subset.refl after) _ _ deed member
  constructor
  · rintro other rfl
    exact unspawned other arises
  · rintro rfl
    exact arises.elim nofun unasked

end Scene

/-- Whatever has been done with a scene, an activation either starts a script from the state of one
that has just been loaded, of the same object and component, or changes nothing. It starts a script
that was never loaded or a repeatable one that has finished. From where an object that may not be
repeated is spawned until it is spawned again, all that happens to it loads its script once at most
and starts the entry for `init` once at most, unless that is asked for by a trigger. -/
theorem scripts_restart_afresh {τ : Type} [Elapsed τ] (stage : Stage) (actions : List (Action τ))
    (start : Journal) (x : ObjectId) :
    let s := (Scene.actAll stage actions .empty start).1
    let j := (Scene.actAll stage actions .empty start).2
    let activated := s.activate stage x j
    (activated.2.1 = true ↔ ∃ actor, s.actor? x = some actor ∧
      (actor.script.phase = .unloaded ∨
        actor.script.phase = .finished ∧ actor.record.repeatable)) ∧
    (activated.2.1 = true → ∃ actor, s.actor? x = some actor ∧
      ∀ k, activated.1 = s.put x ⟨actor.record, (stage.load (.new x) actor.record k).1⟩) ∧
    (activated.2.1 = false → activated.1 = s) ∧
    ∀ before record after, actions = before ++ .spawn x record :: after →
      record.repeatable = false → (∀ other, .spawn x other ∉ after) → .trigger x .init ∉ after →
      let met := Scene.actAll stage before .empty start
      let deeds := Scene.deedsAll stage x (.spawn x record :: after) met.1 met.2
      let story := Deed.story stage x (met.1.actor? x) deeds
      s.actor? x = Deed.outcomeAll stage x (met.1.actor? x) deeds ∧
        story.count .loaded ≤ 1 ∧ story.count (.milestone (.began .init)) ≤ 1 := by
  intro s j activated
  refine ⟨?_, ?_, ?_, ?_⟩
  · rcases s.activate_cases stage x j with ⟨actor, found, starts, flag, -⟩ | ⟨stays, flag, -⟩
    · exact ⟨fun _ => ⟨actor, found, starts⟩, fun _ => flag⟩
    · refine ⟨fun started => ?_, fun ⟨actor, found, starts⟩ => absurd starts (stays actor found)⟩
      cases flag.symm.trans started
  · intro started
    rcases s.activate_cases stage x j with ⟨actor, found, -, -, next⟩ | ⟨-, flag, -⟩
    · have sound := Scene.sound_actAll stage x actions start actor found
      refine ⟨actor, found, fun k => next.trans ?_⟩
      rw [stage.load_afresh sound.owner actor.record j k]
    · cases flag.symm.trans started
  · intro refused
    rcases s.activate_cases stage x j with ⟨_, -, -, flag, -⟩ | ⟨-, -, same⟩
    · cases flag.symm.trans refused
    · exact same
  · intro before record after split once unspawned unasked met deeds story
    have ascending : met.1.Ascending :=
      Scene.Ascending.actAll stage before SortedMap.ascending_empty start
    have reached := Scene.actor?_actAll stage x (.spawn x record :: after) ascending met.2
    rw [← Scene.actAll_append, ← split] at reached
    have spent := Scene.spent_story stage x once unspawned unasked met.1 met.2
    have chance : Actor.chances (⟨record, .new x⟩ : Actor τ) = 1 := rfl
    have loads := spent.loads
    have begins := spent.begins
    rw [Option.elim_some, chance] at loads begins
    exact ⟨reached, Nat.le_of_add_right_le loads, Nat.le_of_add_right_le begins⟩

/-- Of two objects that have finished one may be repeated. The other has been activated once and
woken by an event since; it is not activated again, and has started once. -/
theorem scripts_restart_afresh_listening :
    let stage : Stage :=
      { table := ⟨[⟨6, "listen", "script_listen", .listen, 0, ""⟩]⟩
        registry := .empty
        config := .standard }
    let frame : Millis := ⟨Format.double.ofNat 16⟩
    let after : List (Action Millis) := [.activate 3, .tick frame, .trigger 3 .event, .tick frame]
    let actions := [.spawn 2 ⟨0, true, true⟩] ++ .spawn 3 ⟨0, false, false⟩ :: after
    let reached := Scene.actAll stage actions .empty .empty
    (reached.1.activate stage 2 reached.2).2.1 = true ∧
      (∃ actor, reached.1.actor? 2 = some actor ∧
        ∀ k, (reached.1.activate stage 2 reached.2).1 =
          reached.1.put 2 ⟨actor.record, (stage.load (.new 2) actor.record k).1⟩) ∧
      (reached.1.activate stage 3 reached.2).2.1 = false ∧
      (reached.1.activate stage 3 reached.2).1 = reached.1 ∧
      let met := Scene.actAll stage [.spawn 2 ⟨0, true, true⟩] .empty .empty
      let deeds := Scene.deedsAll stage 3 (.spawn 3 ⟨0, false, false⟩ :: after) met.1 met.2
      let story := Deed.story stage 3 (met.1.actor? 3) deeds
      story.count .loaded ≤ 1 ∧ story.count (.milestone (.began .init)) ≤ 1 ∧
        story = [.loaded, .milestone (.began .init), .milestone .ended,
          .milestone (.began .event), .milestone .ended] := by
  intro stage frame after actions reached
  obtain ⟨-, afresh, -, -⟩ := scripts_restart_afresh stage actions .empty 2
  obtain ⟨-, -, refused, once⟩ := scripts_restart_afresh stage actions .empty 3
  have started : (reached.1.activate stage 2 reached.2).2.1 = true := by decide +kernel
  have stays : (reached.1.activate stage 3 reached.2).2.1 = false := by decide +kernel
  obtain ⟨-, loads, begins⟩ := once _ _ after rfl rfl (by simp [after]) (by simp [after])
  exact ⟨started, afresh started, stays, refused stays, loads, begins, by decide +kernel⟩

end NodeScript
