import Mathlib.Logic.Function.Basic
import NodeScript.Proofs.Execution.Calls
import NodeScript.Proofs.Graph.Meaning

/-!
Graphs interpreted as they stand, without a program. A walk visits one node after the other along
the first link of each Logic output and keeps what the nodes need: a counter for each Repeat node
and the last result of each Function node. Around it stand the same updates, triggers and waiting
times as around a compiled script. Fuel bounds the visits of one turn, because a cycle without a
pause never ends.
-/
namespace NodeScript

/-- What is kept of the interpretation of a graph between its turns. -/
structure Walk (τ : Type) where
  owner : ObjectId
  phase : Phase
  /-- The node to visit next, if an execution is under way. -/
  place : Option Uuid
  /-- The time spent in the pause at `place`, once that has been entered. -/
  slept : Option τ
  /-- How often each Repeat node has gone on since it last gave way. -/
  counters : Uuid → Nat
  /-- The last result of each Function node. -/
  results : Uuid → Int32
  commands : List Command
  pending : List Trigger
  /-- How many triggers may wait. -/
  capacity : Nat

/-- What the visit of a node leads to. -/
inductive Visit (τ : Type)
  | go (next : Option Uuid) (walk : Walk τ) (journal : Journal)
  | pause (walk : Walk τ) (journal : Journal)

/-- The walk after a visit. -/
def Visit.walk {τ : Type} : Visit τ → Walk τ
  | go _ walk _ | pause walk _ => walk

namespace Walk

variable {τ : Type} [Elapsed τ]

/-- A walk over a graph that has not been loaded. -/
def new (owner : ObjectId) : Walk τ :=
  ⟨owner, .unloaded, none, none, fun _ => 0, fun _ => 0, [], [], 0⟩

/-- The number that an input reads. -/
def read (w : Walk τ) : Input → Int64
  | .constant value => value
  | .result node => (w.results node).toInt64

/-- The object that a node addresses; zero is the owner. -/
def object (w : Walk τ) (id : UInt16) : ObjectId := if id = 0 then w.owner else id

def issue (w : Walk τ) (command : Command) : Walk τ :=
  { w with commands := w.commands ++ [command] }

def setCounter (w : Walk τ) (node : Uuid) (count : Nat) : Walk τ :=
  { w with counters := Function.update w.counters node count }

def setResult (w : Walk τ) (node : Uuid) (value : Int32) : Walk τ :=
  { w with results := Function.update w.results node value }

/-- Visits a node in a frame that takes `frame` of time. -/
def visit (g : Graph) (registry : Registry) (frame : τ) (node : Node) (w : Walk τ) (j : Journal) :
    Visit τ :=
  let follow := g.successor? node.uuid
  match node.kind with
  | .wait time =>
    match w.slept with
    | none => .pause { w with place := some node.uuid, slept := some frame } j
    | some before =>
      let elapsed := Elapsed.add before frame
      if Elapsed.reaches elapsed (pauseLength time) then .go (follow 0) { w with slept := none } j
      else .pause { w with place := some node.uuid, slept := some elapsed } j
  | .deleteObject object =>
    let command := Command.deleteObject (w.object object)
    .go (follow 0) (w.issue command) (j.add (.command command))
  | .sendEvent object eventType value =>
    let command := Command.sendEvent (w.object object) w.owner eventType value
    .go (follow 0) (w.issue command) (j.add (.command command))
  | .function name argument =>
    match registry.resolve? (crc32 name) with
    | some f =>
      let (j, value) := j.call f argument
      .go (follow 0) (w.setResult node.uuid value) j
    | none => .go (follow 0) (w.setResult node.uuid 0) j
  | .compare op =>
    let holds := op.holds (w.read (g.input node.uuid 1)) (w.read (g.input node.uuid 2))
    .go (follow (if holds then 0 else 1)) w j
  | .loop bound =>
    let count := w.counters node.uuid
    if count < bound.toNat then .go (follow 0) (w.setCounter node.uuid (count + 1)) j
    else .go (follow 1) (w.setCounter node.uuid 0) j
  | .start | .value _ => .go none w j

/-- Visits nodes until the walk pauses or arrives at an output that is not linked. -/
def travel (g : Graph) (registry : Registry) (frame : τ) :
    (fuel : Nat) → Option Uuid → Walk τ → Journal → Option (Pace × Walk τ × Journal)
  | _, none, w, j => some (.finished, { w with place := none }, j)
  | 0, some _, _, _ => none
  | fuel + 1, some uuid, w, j =>
    match g.node? uuid with
    | none => none
    | some node =>
      match visit g registry frame node w j with
      | .go next w j => travel g registry frame fuel next w j
      | .pause w j => some (.suspended, w, j)

/-- Where the first waiting trigger that has an entry starts, and the triggers behind it. -/
def nextPending? (g : Graph) : List Trigger → Option (Uuid × List Trigger)
  | [] => none
  | trigger :: rest =>
    match g.successor? g.start.uuid trigger.pin with
    | some entry => some (entry, rest)
    | none => nextPending? g rest

/-- What follows a turn. -/
def settle (g : Graph) (pace : Pace) (w : Walk τ) : Walk τ :=
  match pace with
  | .suspended => { w with phase := .suspended }
  | .finished =>
    match nextPending? g w.pending with
    | some (entry, rest) => { w with phase := .running, place := some entry, pending := rest }
    | none => { w with phase := .finished, pending := [] }

/-- One call. -/
def handle (fuel : Nat) (g : Graph) (registry : Registry) (w : Walk τ) (j : Journal) :
    Call τ → Option (Walk τ × Journal)
  | .load config =>
    some ({ new w.owner with
      phase := .running
      place := g.successor? g.start.uuid Trigger.init.pin
      capacity := config.maxPendingTriggers }, j)
  | .update frame =>
    match w.phase with
    | .unloaded | .finished => some (w, j)
    | _ =>
      (travel g registry frame fuel w.place w j).map fun (pace, w, j) => (w.settle g pace, j)
  | .trigger trigger =>
    match g.successor? g.start.uuid trigger.pin with
    | none => some (w, j)
    | some entry =>
      if w.phase = .unloaded then some (w, j)
      else if w.phase = .finished then some ({ w with phase := .running, place := some entry }, j)
      else if w.pending.length < w.capacity then
        some ({ w with pending := w.pending ++ [trigger] }, j)
      else some (w, j)

/-- What a host would see after each of the calls. -/
def observe (fuel : Nat) (g : Graph) (registry : Registry) :
    List (Call τ) → Walk τ → Journal → Option (List Observation)
  | [], _, _ => some []
  | call :: rest, w, j => do
    let (w, j) ← w.handle fuel g registry j call
    let later ← observe fuel g registry rest w j
    pure (⟨w.phase, w.commands, j.effects⟩ :: later)

variable {g : Graph} {registry : Registry} {frame : τ}

@[simp] theorem travel_none (fuel : Nat) (w : Walk τ) (k : Journal) :
    w.travel g registry frame fuel none k = some (.finished, { w with place := none }, k) := by
  cases fuel <;> rfl

/-- Visits leave the queue to the host. -/
theorem visit_pending (g : Graph) (registry : Registry) (frame : τ) (node : Node) (w : Walk τ)
    (k : Journal) :
    (w.visit g registry frame node k).walk.pending = w.pending ∧
      (w.visit g registry frame node k).walk.capacity = w.capacity := by
  unfold visit
  cases node.kind with
  | wait time =>
    cases w.slept with
    | none => exact ⟨rfl, rfl⟩
    | some before =>
      dsimp only
      split <;> exact ⟨rfl, rfl⟩
  | function name argument =>
    dsimp only
    cases registry.resolve? (crc32 name) with
    | none => exact ⟨rfl, rfl⟩
    | some f => exact ⟨rfl, rfl⟩
  | loop count =>
    dsimp only
    split <;> exact ⟨rfl, rfl⟩
  | _ => exact ⟨rfl, rfl⟩

theorem travel_pending {fuel : Nat} {target : Option Uuid} {w w' : Walk τ} {k k' : Journal}
    {pace : Pace} (travels : w.travel g registry frame fuel target k = some (pace, w', k')) :
    w'.pending = w.pending ∧ w'.capacity = w.capacity := by
  induction fuel generalizing target w k with
  | zero =>
    cases target with
    | none =>
      simp only [travel_none, Option.some.injEq, Prod.mk.injEq] at travels
      obtain ⟨-, rfl, -⟩ := travels
      exact ⟨rfl, rfl⟩
    | some uuid => cases travels
  | succ fuel ih =>
    cases target with
    | none =>
      simp only [travel_none, Option.some.injEq, Prod.mk.injEq] at travels
      obtain ⟨-, rfl, -⟩ := travels
      exact ⟨rfl, rfl⟩
    | some uuid =>
      cases found : g.node? uuid with
      | none => simp [travel, found] at travels
      | some node =>
        have kept := visit_pending g registry frame node w k
        simp only [travel, found] at travels
        cases visit : w.visit g registry frame node k with
        | go next w₁ k₁ =>
          rw [visit] at travels kept
          obtain ⟨pending, capacity⟩ := ih travels
          exact ⟨pending.trans kept.1, capacity.trans kept.2⟩
        | pause w₁ k₁ =>
          rw [visit] at travels kept
          simp only [Option.some.injEq, Prod.mk.injEq] at travels
          obtain ⟨-, rfl, -⟩ := travels
          exact kept

end Walk

end NodeScript
