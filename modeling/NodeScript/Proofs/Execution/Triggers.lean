import NodeScript.Proofs.Execution.Lifecycle

/-!
Triggers between one loading and the next. A trigger that is accepted either starts its entry at
once or waits; the two ways together are one queue, first come, first served. What begins and what
ends is read off an instance before and after each request.
-/
namespace NodeScript

/-- What can be asked of an instance between two loadings. -/
inductive Request (τ : Type)
  | update (frame : τ)
  | trigger (trigger : Trigger)

/-- A turning point in the life of an instance. -/
inductive Milestone
  /-- The entry for a trigger starts. -/
  | began (trigger : Trigger)
  /-- The execution under way is over. -/
  | ended
  deriving DecidableEq, Repr

namespace Milestone

/-- The trigger whose entry starts. -/
def begun? : Milestone → Option Trigger
  | began trigger => some trigger
  | ended => none

/-- The triggers whose entries start, in their order. -/
def begun (milestones : List Milestone) : List Trigger := milestones.filterMap begun?

/-- Executions begin only while none is under way, and end only while one is. -/
def Alternate : (underway : Bool) → List Milestone → Prop
  | _, [] => True
  | underway, began _ :: rest => underway = false ∧ Alternate true rest
  | underway, ended :: rest => underway = true ∧ Alternate false rest

/-- Whether an execution is under way behind milestones. -/
def underway : (before : Bool) → List Milestone → Bool
  | before, [] => before
  | _, began _ :: rest => underway true rest
  | _, ended :: rest => underway false rest

@[simp] theorem begun_nil : begun [] = [] := rfl

@[simp] theorem begun_began (trigger : Trigger) (rest : List Milestone) :
    begun (began trigger :: rest) = trigger :: begun rest := rfl

@[simp] theorem begun_append (first second : List Milestone) :
    begun (first ++ second) = begun first ++ begun second := List.filterMap_append

theorem alternate_append (before : Bool) (first second : List Milestone) :
    Alternate before (first ++ second) ↔
      Alternate before first ∧ Alternate (underway before first) second := by
  induction first generalizing before with
  | nil => simp [Alternate, underway]
  | cons milestone rest ih =>
    cases milestone <;> simp [Alternate, underway, ih, and_assoc]

theorem underway_append (before : Bool) (first second : List Milestone) :
    underway before (first ++ second) = underway (underway before first) second := by
  induction first generalizing before with
  | nil => rfl
  | cons milestone rest ih =>
    cases milestone with
    | began trigger => exact ih true
    | ended => exact ih false

/-- The end of the execution under way, if there is one. -/
def closing (underway : Bool) : List Milestone := if underway then [.ended] else []

@[simp] theorem begun_closing (before : Bool) : begun (closing before) = [] := by
  cases before <;> rfl

@[simp] theorem alternate_closing (before : Bool) : Alternate before (closing before) := by
  cases before
  · trivial
  · exact ⟨rfl, trivial⟩

@[simp] theorem underway_closing (before : Bool) : underway before (closing before) = false := by
  cases before <;> rfl

@[simp] theorem began_notMem_closing (trigger : Trigger) (before : Bool) :
    began trigger ∉ closing before := by
  cases before <;> simp [closing]

end Milestone

namespace Instance

open Milestone (begun Alternate)

variable {τ : Type}

/-- What loading a script begins. -/
def opening (script : Script) : List Milestone :=
  if (script.program.entries.get .init).isSome then [.began .init] else []

/-- What a request has begun and ended. A trigger begins an execution by setting a finished
instance running. An update ends the execution under way unless it leaves it suspended; if it
leaves the instance running, the trigger at the head of the queue has begun. -/
def milestones (before after : Instance τ) : Request τ → List Milestone
  | .trigger trigger =>
    if before.phase = .finished ∧ after.phase = .running then [.began trigger] else []
  | .update _ =>
    if before.phase = .finished ∨ after.phase = .suspended then []
    else
      Milestone.closing before.machine.pc.isSome ++
        (if after.phase = .running then before.pending.head?.toList.map .began else [])

/-- The trigger of a request if it is accepted. -/
def accepted (i : Instance τ) : Request τ → List Trigger
  | .trigger trigger => if i.Accepts trigger then [trigger] else []
  | .update _ => []

/-- What a request does to the executions of a loaded instance. -/
structure Served (i next : Instance τ) (request : Request τ) : Prop where
  consistent : next.Consistent
  script : next.script = i.script
  loaded : next.phase ≠ .unloaded
  order : begun (i.milestones next request) ++ next.pending = i.pending ++ i.accepted request
  alternate : Alternate i.machine.pc.isSome (i.milestones next request)
  underway : Milestone.underway i.machine.pc.isSome (i.milestones next request) =
    next.machine.pc.isSome
  entered : ∀ trigger, .began trigger ∈ i.milestones next request →
    next.phase = .running ∧ next.machine.slept = none ∧
      (i.entryOf? trigger).isSome ∧ next.machine.pc = i.entryOf? trigger

theorem Consistent.served_trigger {i : Instance τ} (consistent : i.Consistent)
    (loaded : i.phase ≠ .unloaded) (trigger : Trigger) (j : Journal) :
    Served i (i.trigger trigger j).1 (.trigger trigger) := by
  have kept := consistent.trigger trigger j
  rcases i.trigger_cases trigger j with ⟨same, refused⟩ | ⟨entry, found, outcome⟩
  · have quiet : i.milestones i (.trigger trigger) = [] := by
      simp only [milestones]
      exact if_neg fun both => by cases both.1.symm.trans both.2
    rw [same]
    refine ⟨consistent, rfl, loaded, ?_, ?_, ?_, ?_⟩
    · simp [quiet, accepted, refused]
    · simp [quiet, Alternate]
    · simp [quiet, Milestone.underway]
    · simp [quiet]
  · have entered : (i.entryOf? trigger).isSome := Option.isSome_iff_exists.mpr ⟨entry, found⟩
    rcases outcome with ⟨finished, started⟩ | ⟨busy, room, queued⟩
    · obtain ⟨ended, awake, empty⟩ := consistent.finished finished
      rw [started] at kept ⊢
      have accepts : i.Accepts trigger := ⟨entered, .inl finished⟩
      refine ⟨kept, rfl, nofun, ?_, ?_, ?_, ?_⟩
      · simp [milestones, finished, empty, accepted, accepts]
      · simp [milestones, finished, Alternate, ended]
      · simp [milestones, finished, Milestone.underway]
      · intro other began
        simp only [milestones, finished, and_self, if_true, List.mem_singleton,
          Milestone.began.injEq] at began
        subst began
        exact ⟨rfl, awake, entered, found.symm⟩
    · rw [queued] at kept ⊢
      have accepts : i.Accepts trigger := ⟨entered, .inr room⟩
      refine ⟨kept, rfl, loaded, ?_, ?_, ?_, ?_⟩
      · simp [milestones, busy, accepted, accepts]
      · simp [milestones, busy, Alternate]
      · simp [milestones, busy, Milestone.underway]
      · simp [milestones, busy]

variable [Elapsed τ]

def serve (i : Instance τ) (j : Journal) : Request τ → Instance τ × Journal
  | .update frame => i.update frame j
  | .trigger trigger => i.trigger trigger j

def serveAll : List (Request τ) → Instance τ → Journal → Instance τ × Journal
  | [], i, j => (i, j)
  | request :: rest, i, j =>
    let (i, j) := i.serve j request
    serveAll rest i j

/-- What begins and ends while requests are served. -/
def chronicle : List (Request τ) → Instance τ → Journal → List Milestone
  | [], _, _ => []
  | request :: rest, i, j =>
    let (next, k) := i.serve j request
    i.milestones next request ++ chronicle rest next k

/-- The triggers that are accepted while requests are served, in the order in which they come. -/
def acceptedAll : List (Request τ) → Instance τ → Journal → List Trigger
  | [], _, _ => []
  | request :: rest, i, j =>
    let (next, k) := i.serve j request
    i.accepted request ++ acceptedAll rest next k

theorem Consistent.served_update {i : Instance τ} (consistent : i.Consistent)
    (loaded : i.phase ≠ .unloaded) (frame : τ) (j : Journal) :
    Served i (i.update frame j).1 (.update frame) := by
  have kept := consistent.update frame j
  rcases consistent.update_cases frame j with
    ⟨rests, same⟩ | ⟨active, script, pace, m, k, stored, turn, shape, left, outcome⟩
  · have finished := rests.resolve_left loaded
    rw [same]
    refine ⟨consistent, rfl, loaded, ?_, ?_, ?_, ?_⟩
    · simp [milestones, finished, accepted]
    · simp [milestones, finished, Alternate]
    · simp [milestones, finished, Milestone.underway]
    · simp [milestones, finished]
  · have busy : i.phase ≠ .finished := by rcases active with active | active <;> simp [active]
    rcases outcome with ⟨rfl, paused⟩ | ⟨rfl, empty, finished⟩ |
      ⟨rfl, trigger, rest, entry, waiting, entered, started⟩
    · have under : i.machine.pc.isSome := by
        cases none_under : i.machine.pc with
        | none =>
          simp only [Machine.resume, none_under, Prod.mk.injEq] at turn
          cases turn.1
        | some pc => rfl
      rw [paused] at kept ⊢
      refine ⟨kept, rfl, nofun, ?_, ?_, ?_, ?_⟩
      · simp [milestones, accepted]
      · simp [milestones, Alternate]
      · simp [milestones, Milestone.underway, under, left.1]
      · simp [milestones]
    · have quiet : ∀ next : Instance τ, next.phase = .finished →
          i.milestones next (.update frame) = Milestone.closing i.machine.pc.isSome := by
        intro next rests
        simp [milestones, busy, rests]
      rw [finished] at kept ⊢
      refine ⟨kept, rfl, nofun, ?_, ?_, ?_, ?_⟩
      · simp [quiet, empty, accepted]
      · simp [quiet]
      · simp [quiet, left.1]
      · simp [quiet]
    · have turned : ∀ next : Instance τ, next.phase = .running →
          i.milestones next (.update frame) =
            Milestone.closing i.machine.pc.isSome ++ [.began trigger] := by
        intro next runs
        simp [milestones, busy, runs, waiting]
      rw [started] at kept ⊢
      refine ⟨kept, rfl, nofun, ?_, ?_, ?_, ?_⟩
      · simp [turned, waiting, accepted]
      · simp [turned, Milestone.alternate_append, Alternate]
      · simp [turned, Milestone.underway_append, Milestone.underway]
      · intro other began
        obtain rfl : other = trigger := by simpa [turned] using began
        exact ⟨rfl, left.2, by simp [entered], entered.symm⟩

theorem Consistent.served {i : Instance τ} (consistent : i.Consistent)
    (loaded : i.phase ≠ .unloaded) (request : Request τ) (j : Journal) :
    Served i (i.serve j request).1 request := by
  cases request with
  | update frame => exact consistent.served_update loaded frame j
  | trigger trigger => exact consistent.served_trigger loaded trigger j

/-- What requests do to the executions of a loaded instance, all together. -/
structure ServedAll (i reached : Instance τ) (log : List Milestone) (accepted : List Trigger) :
    Prop where
  consistent : reached.Consistent
  script : reached.script = i.script
  loaded : reached.phase ≠ .unloaded
  order : begun log ++ reached.pending = i.pending ++ accepted
  alternate : Alternate i.machine.pc.isSome log
  underway : Milestone.underway i.machine.pc.isSome log = reached.machine.pc.isSome

theorem Consistent.servedAll (requests : List (Request τ)) {i : Instance τ}
    (consistent : i.Consistent) (loaded : i.phase ≠ .unloaded) (j : Journal) :
    ServedAll i (serveAll requests i j).1 (chronicle requests i j) (acceptedAll requests i j) := by
  induction requests generalizing i j with
  | nil => exact ⟨consistent, rfl, loaded, (List.append_nil _).symm, trivial, rfl⟩
  | cons request rest ih =>
    have first := consistent.served loaded request j
    simp only [serveAll, chronicle, acceptedAll]
    rcases turn : i.serve j request with ⟨next, k⟩
    rw [turn] at first
    have others := ih first.consistent first.loaded k
    refine ⟨others.consistent, others.script.trans first.script, others.loaded, ?_, ?_, ?_⟩
    · rw [Milestone.begun_append, List.append_assoc, others.order, ← List.append_assoc,
        first.order, List.append_assoc]
    · refine (Milestone.alternate_append ..).mpr ⟨first.alternate, ?_⟩
      rw [first.underway]
      exact others.alternate
    · rw [Milestone.underway_append, first.underway]
      exact others.underway

end Instance

/-- Triggers are served first come, first served. After any updates and triggers behind a loading,
the entries that have started, with the queue behind them, are the one for `init`, if there is one,
and those for the triggers that have been accepted, in the order in which they came. One starts only
where none is under way, and is under way from its entry on until it ends. A trigger that is not
accepted changes nothing. -/
theorem triggers_first_come_first_served {τ : Type} [Elapsed τ] (i : Instance τ) (script : Script)
    (registry : Registry) (config : Config) (j : Journal) (requests : List (Request τ)) :
    let loaded := i.bind script registry config j
    let reached := Instance.serveAll requests loaded.1 loaded.2
    let log := Instance.opening script ++ Instance.chronicle requests loaded.1 loaded.2
    Milestone.begun log ++ reached.1.pending =
        Milestone.begun (Instance.opening script) ++
          Instance.acceptedAll requests loaded.1 loaded.2 ∧
      Milestone.Alternate false log ∧
      Milestone.underway false log = reached.1.machine.pc.isSome ∧
      (∀ request trigger,
        .began trigger ∈ reached.1.milestones (reached.1.serve reached.2 request).1 request →
        (reached.1.serve reached.2 request).1.phase = .running ∧
          (script.program.entries.get trigger).isSome ∧
          (reached.1.serve reached.2 request).1.machine.pc =
            script.program.entries.get trigger) ∧
      ∀ trigger, ¬ reached.1.Accepts trigger →
        (reached.1.trigger trigger reached.2).1 = reached.1 := by
  intro loaded reached log
  have consistent : loaded.1.Consistent := Instance.consistent_bind i script registry config j
  have active : loaded.1.phase ≠ .unloaded := nofun
  have served : Instance.ServedAll loaded.1 reached.1 _ _ :=
    consistent.servedAll requests active loaded.2
  have opened : Milestone.Alternate false (Instance.opening script) ∧
      Milestone.underway false (Instance.opening script) = loaded.1.machine.pc.isSome := by
    change _ ∧ _ = (script.program.entries.get .init).isSome
    unfold Instance.opening
    cases script.program.entries.get .init with
    | none => exact ⟨trivial, rfl⟩
    | some entry => exact ⟨⟨rfl, trivial⟩, rfl⟩
  refine ⟨?_, ?_, ?_, ?_, ?_⟩
  · rw [Milestone.begun_append, List.append_assoc, served.order]
    rfl
  · refine (Milestone.alternate_append ..).mpr ⟨opened.1, ?_⟩
    rw [opened.2]
    exact served.alternate
  · rw [Milestone.underway_append, opened.2]
    exact served.underway
  · intro request trigger began
    obtain ⟨running, -, present, entered⟩ :=
      (served.consistent.served served.loaded request reached.2).entered trigger began
    rw [Instance.entryOf?_loaded served.script] at present entered
    exact ⟨running, present, entered⟩
  · intro trigger refused
    rcases reached.1.trigger_cases trigger reached.2 with
      ⟨same, -⟩ | ⟨entry, found, ⟨finished, -⟩ | ⟨-, room, -⟩⟩
    · exact same
    · exact absurd ⟨Option.isSome_iff_exists.mpr ⟨entry, found⟩, .inl finished⟩ refused
    · exact absurd ⟨Option.isSome_iff_exists.mpr ⟨entry, found⟩, .inr room⟩ refused

end NodeScript
