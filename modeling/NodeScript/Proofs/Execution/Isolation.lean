import Mathlib.Data.List.Induction
import NodeScript.Proofs.Execution.Frames

/-!
Objects of a scene are kept apart. What becomes of one of them, and what it issues in each frame,
depends on the frames and on what is done with this object, in their order, and not on what other
objects there are. Two things could carry more across and are excluded: commands of others that
address the object, and user functions that answer it differently for what others have called.

The argument compares every history with the one that is left of it when all that does not concern
the object is taken out, so that the object is by itself.
-/
namespace NodeScript

/-- Whether an action does something with an object or lets time pass for it. -/
def Action.concerns {τ : Type} (x : ObjectId) : Action τ → Bool
  | spawn id _ | activate id | trigger id _ | despawn id => id == x
  | tick _ => true

/-- Whether a command does something to an object. -/
def Command.addresses (x : ObjectId) : Command → Bool
  | deleteObject object => object == x
  | sendEvent target _ _ _ => target == x

open Journal (Alike)

namespace Journal

theorem Alike.refl (bound : Array (Option UserFunction)) (j : Journal) : Alike bound j j :=
  fun _ _ _ _ => rfl

/-- Functions answer alike after journals that hold the same calls of them. -/
theorem alike_of_history {bound : Array (Option UserFunction)} {j k : Journal}
    (same : ∀ id ∈ bound.toList.filterMap (·.map (·.id)), j.history id = k.history id) :
    Alike bound j k := by
  intro f member own argument
  rw [same f.id (List.mem_filterMap.mpr ⟨some f, Array.mem_toList_iff.mpr member, rfl⟩)]

end Journal

namespace Stage

variable {τ : Type}

/-- What is loaded does not depend on what has happened before. -/
theorem load_eq (stage : Stage) (i : Instance τ) (record : ComponentRecord) (j k : Journal) :
    (stage.load i record j).1 = (stage.load i record k).1 := by
  unfold Stage.load Instance.load
  cases stage.table.get? record.assetIndex.toNat with
  | none => rfl
  | some script => rfl

end Stage

namespace Scene

variable {τ : Type}

theorem actor?_put (s : Scene τ) (id x : ObjectId) (actor : Actor τ) :
    (s.put id actor).actor? x = if x = id then some actor else s.actor? x :=
  s.actors.find?_insert id x actor

theorem actor?_despawn (s : Scene τ) (id x : ObjectId) :
    (s.despawn id).1.actor? x = if x = id then none else s.actor? x :=
  s.actors.find?_erase id x

/-- What is found under an identifier after an object has been spawned. -/
theorem actor?_spawn (s : Scene τ) (stage : Stage) (id x : ObjectId) (record : ComponentRecord)
    (j k : Journal) :
    (s.spawn stage id record j).1.actor? x =
      if x = id then
        some ⟨record, if record.autoRun then (stage.load (.new id) record k).1 else .new id⟩
      else s.actor? x := by
  unfold spawn
  split
  · rw [actor?_put, stage.load_eq _ record j k]
  · rw [actor?_put]

/-- What is found under an identifier after an object has been activated. -/
theorem actor?_activate (s : Scene τ) (stage : Stage) (id x : ObjectId) (j k : Journal) :
    (s.activate stage id j).1.actor? x =
      (s.actor? x).map fun actor =>
        if x = id ∧ (actor.script.phase = .unloaded ∨
            (actor.script.phase = .finished ∧ actor.record.repeatable)) then
          ⟨actor.record, (stage.load actor.script actor.record k).1⟩
        else actor := by
  unfold activate
  by_cases same : x = id
  · subst same
    cases found : s.actor? x with
    | none => simp [found]
    | some actor =>
      dsimp only
      split
      next starts =>
        rw [actor?_put, stage.load_eq _ _ j k]
        simp [starts]
      next stays => simp [stays, found]
  · cases s.actor? id with
    | none => simp [same]
    | some actor =>
      dsimp only
      split
      · simp [actor?_put, same]
      · simp [same]

/-- What commands make of an object. -/
def afterCommands (x : ObjectId) (k : Journal) (commands : List Command) (actor : Actor τ) :
    Option (Actor τ) :=
  if .deleteObject x ∈ commands then none
  else some ⟨actor.record, (afterEvent k)^[commands.countP (·.sendsTo x)] actor.script⟩

/-- An object does not notice commands that do not address it. -/
theorem afterCommands_congr {x : ObjectId} {commands own : List Command}
    (same : commands.filter (·.addresses x) = own.filter (·.addresses x)) (k : Journal) :
    (afterCommands x k commands : Actor τ → Option (Actor τ)) = afterCommands x k own := by
  have deletes (commands : List Command) :
      .deleteObject x ∈ commands ↔ .deleteObject x ∈ commands.filter (·.addresses x) := by
    simp [Command.addresses]
  have sends (commands : List Command) : commands.countP (·.sendsTo x) =
      (commands.filter (·.addresses x)).countP (·.sendsTo x) := by
    rw [List.countP_filter]
    refine List.countP_congr fun command _ => ?_
    cases command <;> simp [Command.sendsTo, Command.addresses]
  funext actor
  simp only [afterCommands, deletes commands, deletes own, sends commands, sends own, same]

/-- No object but one. -/
def Sole (x : ObjectId) (s : Scene τ) : Prop := ∀ id ∈ s.actors.entries.map (·.1), id = x

theorem Sole.put {s : Scene τ} {x : ObjectId} (sole : s.Sole x) (actor : Actor τ) :
    (s.put x actor).Sole x := fun id member =>
  (SortedMap.mem_keys_insertEntry member).elim (fun same => same) (sole id)

theorem Sole.despawn {s : Scene τ} {x : ObjectId} (sole : s.Sole x) (id : ObjectId) :
    (s.despawn id).1.Sole x := fun other member =>
  sole other ((List.filter_sublist.map _).subset member)

theorem Sole.actor?_eq_none {s : Scene τ} {x id : ObjectId} (sole : s.Sole x) (other : id ≠ x) :
    s.actor? id = none := by
  rw [actor?, SortedMap.find?, Option.map_eq_none_iff, List.find?_eq_none]
  intro entry member same
  exact other ((eq_of_beq same).symm.trans (sole entry.1 (List.mem_map_of_mem member)))

theorem Sole.trigger {s : Scene τ} {x : ObjectId} (sole : s.Sole x) (id : ObjectId)
    (trigger : Trigger) (j : Journal) : (s.trigger id trigger j).1.Sole x := by
  unfold Scene.trigger
  by_cases same : id = x
  · subst same
    split
    · exact sole
    · exact sole.put _
  · rw [sole.actor?_eq_none same]
    exact sole

theorem Sole.applyAll (commands : List Command) {s : Scene τ} {x : ObjectId} (sole : s.Sole x)
    (j : Journal) : (s.applyAll commands j).1.Sole x := by
  induction commands generalizing s j with
  | nil => exact sole
  | cons command rest ih =>
    rw [Scene.applyAll]
    cases command with
    | deleteObject object => exact ih (sole.despawn object) _
    | sendEvent target sender eventType value => exact ih (sole.trigger target .event j) _

variable [Elapsed τ]

/-- What is done with other objects leaves an object as it is. -/
theorem actor?_act_other (s : Scene τ) (stage : Stage) (x : ObjectId) (j : Journal)
    {action : Action τ} (other : action.concerns x = false) :
    (s.act stage j action).1.actor? x = s.actor? x := by
  have differs {id : ObjectId} (distinct : (id == x) = false) : x ≠ id :=
    fun same => by simp [same] at distinct
  cases action with
  | spawn id record =>
    rw [act, actor?_spawn s stage id x record j j, if_neg (differs other)]
  | activate id => simp [act, actor?_activate s stage id x j j, differs other]
  | trigger id trigger => simp [act, actor?_trigger, differs other]
  | despawn id => rw [act, actor?_despawn, if_neg (differs other)]
  | tick frame => cases other

/-- What is done with an object between frames has the same effect in all scenes. -/
theorem actor?_act_own {s t : Scene τ} {x : ObjectId} (same : s.actor? x = t.actor? x)
    (stage : Stage) (j k : Journal) {action : Action τ} (instant : ∀ frame, action ≠ .tick frame) :
    (s.act stage j action).1.actor? x = (t.act stage k action).1.actor? x := by
  cases action with
  | spawn id record =>
    rw [act, act, actor?_spawn s stage id x record j k, actor?_spawn t stage id x record k k, same]
  | activate id =>
    have started := actor?_activate s stage id x j k
    rw [same, ← actor?_activate t stage id x k k] at started
    exact started
  | trigger id trigger =>
    have alike (actor : Actor τ) :
        (actor.script.trigger trigger j).1 = (actor.script.trigger trigger k).1 :=
      actor.script.trigger_alike trigger j k
    simp only [act, actor?_trigger, same, alike]
  | despawn id => rw [act, act, actor?_despawn, actor?_despawn, same]
  | tick frame => exact absurd rfl (instant frame)

/-- The commands that are issued in a frame, each with the object that issues it. -/
def issued (frame : τ) : List (ObjectId × Actor τ) → Journal → List (ObjectId × Command)
  | [], _ => []
  | (id, actor) :: rest, j =>
    let (script, j) := actor.script.update frame j
    script.takeCommands.2.map (id, ·) ++ issued frame rest j

/-- The commands that an object issues in a frame. -/
def commandsOf (s : Scene τ) (frame : τ) (j : Journal) (x : ObjectId) : List Command :=
  ((issued frame s.actors.entries j).filter (·.1 == x)).map (·.2)

/-- The journal as an object finds it at its turn. -/
def heard (frame : τ) (x : ObjectId) : List (ObjectId × Actor τ) → Journal → Journal
  | [], j => j
  | (id, actor) :: rest, j => if id = x then j else heard frame x rest (actor.script.update frame j).2

theorem map_issued (frame : τ) (actors : List (ObjectId × Actor τ)) (j : Journal) :
    (issued frame actors j).map (·.2) = (updateActors frame actors j).2.1 := by
  induction actors generalizing j with
  | nil => rfl
  | cons entry rest ih => simp [issued, updateActors, ih, Function.comp_def]

theorem issuer_mem {frame : τ} {actors : List (ObjectId × Actor τ)} {j : Journal}
    {issue : ObjectId × Command} (member : issue ∈ issued frame actors j) :
    issue.1 ∈ actors.map (·.1) := by
  induction actors generalizing j with
  | nil => cases member
  | cons entry rest ih =>
    rcases List.mem_append.mp member with own | later
    · obtain ⟨command, -, rfl⟩ := List.mem_map.mp own
      exact List.mem_cons_self
    · exact List.mem_cons_of_mem _ (ih later)

/-- An object's turn in a frame, if its functions answer as they do after another journal. -/
theorem turn_eq (frame : τ) (x : ObjectId) (k : Journal) (actors : List (ObjectId × Actor τ))
    (j : Journal) (distinct : (actors.map (·.1)).Pairwise (· < ·))
    (alike : ∀ actor, SortedMap.find? ⟨actors⟩ x = some actor →
      Alike actor.script.machine.bound (heard frame x actors j) k) :
    SortedMap.find? ⟨(updateActors frame actors j).1⟩ x =
        (SortedMap.find? ⟨actors⟩ x).map (fun actor => (alone frame k actor).1) ∧
      ((issued frame actors j).filter (·.1 == x)).map (·.2) =
        ((SortedMap.find? ⟨actors⟩ x).map fun actor => (alone frame k actor).2).getD [] := by
  induction actors generalizing j with
  | nil => exact ⟨rfl, rfl⟩
  | cons entry rest ih =>
    obtain ⟨id, actor⟩ := entry
    obtain ⟨below, distinct⟩ := List.pairwise_cons.mp distinct
    by_cases same : id = x
    · subst same
      have later : (issued frame rest (actor.script.update frame j).2).filter (·.1 == id) = [] := by
        refine List.filter_eq_nil_iff.mpr fun issue member => ?_
        have above := below issue.1 (issuer_mem member)
        intro again
        rw [eq_of_beq again] at above
        exact UInt16.lt_irrefl id above
      have found : SortedMap.find? ⟨(id, actor) :: rest⟩ id = some actor := by
        simp [SortedMap.find?]
      have first : (actor.script.update frame j).1 = (actor.script.update frame k).1 := by
        have hears := alike actor found
        simp only [heard, if_true] at hears
        exact actor.script.update_alike frame hears
      rw [found]
      constructor
      · simp [SortedMap.find?, updateActors, alone, first]
      · simp [issued, later, alone, first, List.filter_map, Function.comp_def]
    · have passed : SortedMap.find? ⟨(id, actor) :: rest⟩ x = SortedMap.find? ⟨rest⟩ x := by
        simp [SortedMap.find?, same]
      rw [passed] at alike ⊢
      simp only [heard, if_neg same] at alike
      obtain ⟨turned, own⟩ := ih (actor.script.update frame j).2 distinct alike
      constructor
      · rw [← turned]
        simp [SortedMap.find?, updateActors, same]
      · rw [← own]
        simp [issued, same, List.filter_map, Function.comp_def]

/-- What becomes of an object in a frame by its own turn and its own commands. -/
def ownFrame (x : ObjectId) (frame : τ) (k : Journal) (actor : Actor τ) : Option (Actor τ) :=
  let (next, own) := alone frame k actor
  afterCommands x k own next

/-- Of all commands of a frame those that address an object are its own. -/
theorem filter_addresses {s : Scene τ} {frame : τ} {j : Journal} {x : ObjectId}
    (unaddressed : ∀ issue ∈ issued frame s.actors.entries j, issue.1 ≠ x →
      issue.2.addresses x = false) :
    (updateActors frame s.actors.entries j).2.1.filter (·.addresses x) =
      (s.commandsOf frame j x).filter (·.addresses x) := by
  rw [← map_issued, commandsOf, List.filter_map, List.filter_map, List.filter_filter]
  refine congrArg _ (List.filter_congr fun issue member => ?_)
  by_cases own : issue.1 = x
  · simp [own]
  · simp [unaddressed issue member own]

/-- A frame of a scene as an object sees it that no other addresses and whose functions answer as
they do after another journal. -/
theorem tick_seen {s : Scene τ} (ascending : s.Ascending) (frame : τ) (x : ObjectId)
    {j k : Journal}
    (unaddressed : ∀ issue ∈ issued frame s.actors.entries j, issue.1 ≠ x →
      issue.2.addresses x = false)
    (alike : ∀ actor, s.actor? x = some actor →
      Alike actor.script.machine.bound (heard frame x s.actors.entries j) k) :
    (s.tick frame j).1.actor? x = (s.actor? x).bind (ownFrame x frame k) ∧
      s.commandsOf frame j x = ((s.actor? x).map fun actor => (alone frame k actor).2).getD [] := by
  obtain ⟨turned, own⟩ := turn_eq frame x k s.actors.entries j ascending alike
  refine ⟨?_, own⟩
  have noticed := @afterCommands_congr τ _ _ _ (filter_addresses unaddressed) k
  rw [show s.commandsOf frame j x = _ from own] at noticed
  have applied : (s.tick frame j).1.actor? x =
      ((s.actor? x).map fun actor => (alone frame k actor).1).bind
        (afterCommands x k (updateActors frame s.actors.entries j).2.1) := by
    rw [tick]
    dsimp only
    rw [actor?_applyAll _ _ _ k, show Scene.actor? _ x = _ from turned]
    unfold afterCommands
    split
    · simp
    · exact Option.map_eq_bind
  rw [applied, noticed]
  unfold actor?
  cases SortedMap.find? s.actors x with
  | none => rfl
  | some actor => rfl

/-- What concerns an object adds no other. -/
theorem Sole.act {s : Scene τ} {x : ObjectId} (sole : s.Sole x) (stage : Stage) (j : Journal)
    {action : Action τ} (own : action.concerns x) : (s.act stage j action).1.Sole x := by
  cases action with
  | spawn id record =>
    obtain rfl : id = x := eq_of_beq own
    simp only [Scene.act, spawn]
    split
    · exact sole.put _
    · exact sole.put _
  | activate id =>
    obtain rfl : id = x := eq_of_beq own
    simp only [Scene.act, activate]
    split
    · exact sole
    · split
      · exact sole.put _
      · exact sole
  | trigger id trigger => exact sole.trigger id trigger j
  | despawn id => exact sole.despawn id
  | tick frame =>
    refine Sole.applyAll _ (fun id member => ?_) _
    rw [keys_updateActors] at member
    exact sole id member

/-- An object that is by itself finds the journal as it is. -/
theorem Sole.heard_eq {s : Scene τ} {x : ObjectId} (sole : s.Sole x) (frame : τ) (k : Journal) :
    heard frame x s.actors.entries k = k := by
  unfold Sole at sole
  cases entries : s.actors.entries with
  | nil => rfl
  | cons entry rest =>
    rw [entries] at sole
    rw [heard, if_pos (sole entry.1 List.mem_cons_self)]

/-- A frame of an object that is by itself. -/
theorem Sole.tick_seen {t : Scene τ} {x : ObjectId} (sole : t.Sole x) (ascending : t.Ascending)
    (frame : τ) (k : Journal) :
    (t.tick frame k).1.actor? x = (t.actor? x).bind (ownFrame x frame k) ∧
      t.commandsOf frame k x =
        ((t.actor? x).map fun actor => (alone frame k actor).2).getD [] := by
  refine Scene.tick_seen ascending frame x (fun issue member other => ?_) fun actor _ => ?_
  · exact absurd (sole issue.1 (issuer_mem member)) other
  · rw [sole.heard_eq]
    exact Alike.refl _ _

/-- The commands that an object issues in each frame. -/
def yields (stage : Stage) (x : ObjectId) :
    List (Action τ) → Scene τ → Journal → List (List Command)
  | [], _, _ => []
  | action :: rest, s, j =>
    let (next, k) := s.act stage j action
    match action with
    | .tick frame => s.commandsOf frame j x :: yields stage x rest next k
    | _ => yields stage x rest next k

theorem actAll_append (stage : Stage) (first second : List (Action τ)) (s : Scene τ)
    (j : Journal) :
    actAll stage (first ++ second) s j =
      actAll stage second (actAll stage first s j).1 (actAll stage first s j).2 := by
  induction first generalizing s j with
  | nil => rfl
  | cons action rest ih => exact ih _ _

theorem yields_append (stage : Stage) (x : ObjectId) (first second : List (Action τ))
    (s : Scene τ) (j : Journal) :
    yields stage x (first ++ second) s j =
      yields stage x first s j ++
        yields stage x second (actAll stage first s j).1 (actAll stage first s j).2 := by
  induction first generalizing s j with
  | nil => rfl
  | cons action rest ih =>
    cases action with
    | tick frame => exact congrArg (s.commandsOf frame j x :: ·) (ih _ _)
    | _ => exact ih _ _

/-- What a history is like in which an object is left alone by others. It holds of each frame after
the actions before it. -/
structure Secluded (stage : Stage) (x : ObjectId) (start : Journal) (history : List (Action τ)) :
    Prop where
  /-- No other object deletes it or sends it an event. -/
  unaddressed : ∀ n frame, history[n]? = some (.tick frame) →
    let reached := actAll stage (history.take n) .empty start
    ∀ issue ∈ issued frame reached.1.actors.entries reached.2, issue.1 ≠ x →
      issue.2.addresses x = false
  /-- Its functions answer it as if it had been by itself from the start. -/
  unmoved : ∀ n frame, history[n]? = some (.tick frame) →
    let reached := actAll stage (history.take n) .empty start
    let solo := actAll stage ((history.take n).filter (·.concerns x)) .empty start
    ∀ actor, reached.1.actor? x = some actor →
      Alike actor.script.machine.bound (heard frame x reached.1.actors.entries reached.2) solo.2

theorem yields_instant (stage : Stage) (x : ObjectId) (s : Scene τ) (j : Journal)
    {action : Action τ} (instant : ∀ frame, action ≠ .tick frame) :
    yields stage x [action] s j = [] := by
  cases action with
  | tick frame => exact absurd rfl (instant frame)
  | _ => rfl

theorem Secluded.of_append {stage : Stage} {x : ObjectId} {start : Journal}
    {first second : List (Action τ)} (secluded : Secluded stage x start (first ++ second)) :
    Secluded stage x start first := by
  have within {n : Nat} {action : Action τ} (at_n : first[n]? = some action) :
      (first ++ second)[n]? = some action ∧ (first ++ second).take n = first.take n := by
    obtain ⟨inside, -⟩ := List.getElem?_eq_some_iff.mp at_n
    exact ⟨by rw [List.getElem?_append_left inside, at_n],
      List.take_append_of_le_length (Nat.le_of_lt inside)⟩
  constructor
  · intro n frame at_n
    obtain ⟨at_n', same⟩ := within at_n
    exact same ▸ secluded.unaddressed n frame at_n'
  · intro n frame at_n
    obtain ⟨at_n', same⟩ := within at_n
    exact same ▸ secluded.unmoved n frame at_n'

/-- A check for it, which asks of the functions that no calls of others are among theirs. -/
def leftAlone (stage : Stage) (x : ObjectId) (start : Journal) (history : List (Action τ)) : Bool :=
  (List.range history.length).all fun n =>
    match history[n]? with
    | some (.tick frame) =>
      let reached := actAll stage (history.take n) .empty start
      let solo := actAll stage ((history.take n).filter (·.concerns x)) .empty start
      (issued frame reached.1.actors.entries reached.2).all
          (fun issue => issue.1 == x || !issue.2.addresses x) &&
        (reached.1.actor? x).all fun actor =>
          (actor.script.machine.bound.toList.filterMap (·.map (·.id))).all fun id =>
            (heard frame x reached.1.actors.entries reached.2).history id == solo.2.history id
    | _ => true

theorem secluded_of_leftAlone {stage : Stage} {x : ObjectId} {start : Journal}
    {history : List (Action τ)} (checked : leftAlone stage x start history) :
    Secluded stage x start history := by
  have at_frame {n : Nat} {frame : τ} (at_n : history[n]? = some (.tick frame)) :=
    List.all_eq_true.mp checked n
      (List.mem_range.mpr (List.getElem?_eq_some_iff.mp at_n).1)
  constructor
  · intro n frame at_n reached issue member other
    have passed := at_frame at_n
    simp only [at_n, Bool.and_eq_true, List.all_eq_true, Bool.or_eq_true, beq_iff_eq,
      Bool.not_eq_true'] at passed
    exact (passed.1 issue member).resolve_left other
  · intro n frame at_n reached solo actor found
    have passed := at_frame at_n
    simp only [at_n, Bool.and_eq_true] at passed
    have calls := passed.2
    rw [show Scene.actor? _ x = _ from found] at calls
    refine Journal.alike_of_history fun id bound => ?_
    exact eq_of_beq (List.all_eq_true.mp calls id bound)

theorem Sole.actAll (stage : Stage) {x : ObjectId} (history : List (Action τ)) {s : Scene τ}
    (sole : s.Sole x) (j : Journal) :
    (Scene.actAll stage (history.filter (·.concerns x)) s j).1.Sole x := by
  induction history generalizing s j with
  | nil => exact sole
  | cons action rest ih =>
    rw [List.filter_cons]
    split
    next own => exact ih (sole.act stage j own) _
    next => exact ih sole j

/-- Between frames an object sees of an action what concerns it. -/
theorem instant_seen {s t : Scene τ} {x : ObjectId} (actors : s.actor? x = t.actor? x)
    (stage : Stage) (j k : Journal) {action : Action τ} (instant : ∀ frame, action ≠ .tick frame) :
    (actAll stage [action] s j).1.actor? x =
        (actAll stage ([action].filter (·.concerns x)) t k).1.actor? x ∧
      yields stage x [action] s j = yields stage x ([action].filter (·.concerns x)) t k := by
  rw [yields_instant stage x _ _ instant]
  cases concerned : action.concerns x with
  | false =>
    have outside : [action].filter (·.concerns x) = [] := by simp [concerned]
    rw [outside]
    exact ⟨(actor?_act_other _ stage x _ concerned).trans actors, rfl⟩
  | true =>
    have inside : [action].filter (·.concerns x) = [action] := by simp [concerned]
    rw [inside, yields_instant stage x _ _ instant]
    exact ⟨actor?_act_own actors stage _ _ instant, rfl⟩

/-- An object that is left alone takes the course that it takes by itself. -/
theorem Secluded.solo {stage : Stage} {x : ObjectId} {start : Journal}
    {history : List (Action τ)} (secluded : Secluded stage x start history) :
    (actAll stage history .empty start).1.actor? x =
        (actAll stage (history.filter (·.concerns x)) .empty start).1.actor? x ∧
      yields stage x history .empty start =
        yields stage x (history.filter (·.concerns x)) .empty start := by
  induction history using List.reverseRecOn with
  | nil => exact ⟨rfl, rfl⟩
  | append_singleton before action ih =>
    obtain ⟨actors, commands⟩ := ih secluded.of_append
    have at_end : (before ++ [action])[before.length]? = some action := by simp
    have reached : (before ++ [action]).take before.length = before := by simp
    rw [List.filter_append, actAll_append, actAll_append, yields_append, yields_append, commands]
    by_cases instant : ∀ frame, action ≠ .tick frame
    · obtain ⟨next, own⟩ := instant_seen actors stage _ _ instant
      exact ⟨next, congrArg (_ ++ ·) own⟩
    · obtain ⟨frame, rfl⟩ : ∃ frame, action = .tick frame := by simpa using instant
      have ascending := Ascending.actAll stage before SortedMap.ascending_empty start
      have ascending' := Ascending.actAll stage (before.filter (·.concerns x))
        SortedMap.ascending_empty start
      have sole := Sole.actAll stage before (s := .empty) (x := x) nofun start
      have unaddressed := secluded.unaddressed _ frame at_end
      have unmoved := secluded.unmoved _ frame at_end
      rw [reached] at unaddressed unmoved
      obtain ⟨next, own⟩ := tick_seen ascending frame x unaddressed unmoved
      obtain ⟨next', own'⟩ := sole.tick_seen ascending' frame _
      rw [← actors] at next' own'
      exact ⟨next.trans next'.symm, congrArg (_ ++ [·]) (own.trans own'.symm)⟩

end Scene

/-- Scripts are isolated. Two histories with the same frames and the same that is done with an
object, in the same order, leave the object in the same state, or absent, and it issues the same
commands in each frame, whatever else there is and happens. In both no other object may delete it or
send it an event, and its functions may not answer it differently for what others have called. -/
theorem scripts_isolated {τ : Type} [Elapsed τ] (stage : Stage) (x : ObjectId) (start : Journal)
    {history other : List (Action τ)}
    (same : history.filter (·.concerns x) = other.filter (·.concerns x))
    (secluded : Scene.Secluded stage x start history)
    (secluded' : Scene.Secluded stage x start other) :
    (Scene.actAll stage history .empty start).1.actor? x =
        (Scene.actAll stage other .empty start).1.actor? x ∧
      Scene.yields stage x history .empty start = Scene.yields stage x other .empty start := by
  obtain ⟨actor, commands⟩ := secluded.solo
  obtain ⟨actor', commands'⟩ := secluded'.solo
  rw [← same] at actor' commands'
  exact ⟨actor.trans actor'.symm, commands.trans commands'.symm⟩

/-- Counts its calls of a function and wakes itself with each count. -/
def Program.count : Program :=
  { code := #[.call 1 (.constant 1) 0, .sendEvent (.constant 0) (.constant 5) (.global 0), .finish]
    entries := ⟨some 0, some 0, none⟩
    globals := #[⟨"result", .number, 0⟩, ⟨"f", .function 0xC, 0⟩]
    maxLocals := 0 }

/-- An object goes on counting while one beside it calls another function, removes a third and wakes
a fourth, which is then taken away. -/
theorem scripts_isolated_counting :
    let stage : Stage :=
      { table := ⟨[⟨4, "count", "script_count", .count, 0, ""⟩,
          ⟨5, "cull", "script_cull", .cull, 0, ""⟩,
          ⟨6, "listen", "script_listen", .listen, 0, ""⟩]⟩
        registry := (Registry.empty.register 0xC fun earlier _ => .ofNat earlier.length).register
          0xF fun _ argument => argument.toInt32
        config := .standard }
    let frame : Millis := ⟨Format.double.ofNat 16⟩
    let quiet : List (Action Millis) := [.spawn 7 ⟨0, true, false⟩, .tick frame, .tick frame]
    let busy : List (Action Millis) :=
      [.spawn 1 ⟨1, true, false⟩, .spawn 3 ⟨2, true, false⟩, .spawn 7 ⟨0, true, false⟩,
        .spawn 2 ⟨2, true, false⟩, .tick frame, .despawn 2, .tick frame]
    quiet.filter (·.concerns 7) = busy.filter (·.concerns 7) ∧
      Scene.Secluded stage 7 .empty quiet ∧ Scene.Secluded stage 7 .empty busy ∧
      (Scene.actAll stage busy .empty .empty).1.actor? 7 =
        (Scene.actAll stage quiet .empty .empty).1.actor? 7 ∧
      Scene.yields stage 7 busy .empty .empty = [[.sendEvent 7 7 5 0], [.sendEvent 7 7 5 1]] := by
  intro stage frame quiet busy
  have same : quiet.filter (·.concerns 7) = busy.filter (·.concerns 7) := rfl
  have undisturbed : Scene.Secluded stage 7 .empty quiet :=
    Scene.secluded_of_leftAlone (by decide +kernel)
  have undisturbed' : Scene.Secluded stage 7 .empty busy :=
    Scene.secluded_of_leftAlone (by decide +kernel)
  obtain ⟨actor, commands⟩ := scripts_isolated stage 7 .empty same undisturbed undisturbed'
  exact ⟨same, undisturbed, undisturbed', actor.symm, commands.symm.trans (by decide +kernel)⟩

end NodeScript
