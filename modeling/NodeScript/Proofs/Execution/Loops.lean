import NodeScript.Proofs.Execution.Lifecycle
import NodeScript.Proofs.Execution.Steps

/-!
Loops over whole runs. What an execution does is told as the instructions that it visits, with the
machine as each finds it and where each goes on. If no other instruction writes the counter of a
loop, the visits to the loop alone decide what is in it: whatever happens in between, it holds how
often the loop has been passed, taken modulo the length of a round.
-/
namespace NodeScript

/-- The global that an instruction writes, if it writes one. -/
def Instruction.writes? : Instruction → Option Slot
  | call _ _ result => some result
  | loop counter _ _ => some counter
  | _ => none

namespace Step

variable {τ : Type}

def machine : Step τ → Machine τ
  | next _ m _ | stop _ m _ => m

/-- The address that is next, unless the turn ends. -/
def onward? : Step τ → Option Addr
  | next pc _ _ => some pc
  | stop .. => none

end Step

/-- An instruction that has been run, with the machine as it was found and the address that came
next, if the turn went on. -/
structure Visited (τ : Type) where
  pc : Addr
  machine : Machine τ
  onward : Option Addr

namespace Machine

variable {τ : Type} [Elapsed τ]

/-- What is visited by at most `steps` instructions. -/
def visits (program : Program) (frame : τ) :
    (steps : Nat) → (pc : Addr) → Machine τ → Journal → List (Visited τ)
  | 0, _, _, _ => []
  | steps + 1, pc, m, j =>
    match step program frame pc m j with
    | .next next m' j' => ⟨pc, m, some next⟩ :: visits program frame steps next m' j'
    | .stop .. => [⟨pc, m, none⟩]

/-- What is visited in a turn of the execution under way. -/
def turn (program : Program) (frame : τ) (budget : Nat) (m : Machine τ) (j : Journal) :
    List (Visited τ) :=
  match m.pc with
  | none => []
  | some pc => visits program frame budget pc m j

/-- An instruction leaves the globals alone that it does not write. -/
theorem StepsTo.getElem?_globals {program : Program} {frame : τ} {pc : Addr} {m : Machine τ}
    {j : Journal} {result : Step τ} (steps : StepsTo program frame pc m j result) {slot : Slot}
    (spared : ∀ instruction, program.code[pc.toNat]? = some instruction →
      instruction.writes? ≠ some slot) :
    result.machine.globals[slot.toNat]? = m.globals[slot.toNat]? := by
  have written {instruction : Instruction} {other : Slot}
      (found : program.code[pc.toNat]? = some instruction)
      (writes : instruction.writes? = some other) (value : Int64) :
      (m.setGlobal other value).globals[slot.toNat]? = m.globals[slot.toNat]? := by
    have apart : other.toNat ≠ slot.toNat := fun same =>
      spared instruction found (UInt16.toNat_inj.mp same ▸ writes)
    exact Array.getElem?_setIfInBounds_ne apart
  cases steps with
  | call found | miss found | again found | leave found => exact written found rfl _
  | outside | unroomy | setLocal | enter | wait | wake | deleteObject | sendEvent | goOn | branch
  | jump | finish => rfl

/-- What is visited is where the instructions before it lead, and the turn goes on from there. -/
theorem visits_split {program : Program} {frame : τ} {steps : Nat} {pc : Addr} {m : Machine τ}
    {j : Journal} {earlier later : List (Visited τ)} {visit : Visited τ}
    (split : visits program frame steps pc m j = earlier ++ visit :: later) :
    ∃ k left, Moves program frame earlier.length pc m j visit.pc visit.machine k ∧
      steps = earlier.length + (left + 1) ∧
      visits program frame (left + 1) visit.pc visit.machine k = visit :: later := by
  induction earlier generalizing steps pc m j with
  | nil =>
    cases steps with
    | zero => simp [visits] at split
    | succ steps =>
      have here : visit.pc = pc ∧ visit.machine = m := by
        rw [visits] at split
        cases result : step program frame pc m j <;> rw [result] at split <;>
          exact ⟨congrArg Visited.pc (List.cons.inj split).1.symm,
            congrArg Visited.machine (List.cons.inj split).1.symm⟩
      obtain ⟨rfl, rfl⟩ := here
      exact ⟨j, steps, .refl .., (Nat.zero_add _).symm, split⟩
  | cons other earlier ih =>
    cases steps with
    | zero => simp [visits] at split
    | succ steps =>
      rw [visits] at split
      cases result : step program frame pc m j with
      | next pc' m' j' =>
        rw [result] at split
        obtain ⟨k, left, moves, total, rest⟩ := ih (List.cons.inj split).2
        refine ⟨k, left, .next result moves, ?_, rest⟩
        rw [total, List.length_cons]
        omega
      | stop pace m' j' =>
        rw [result] at split
        simp at split

end Machine

/-- A loop of a program: where its instruction stands and what that says. -/
structure Loop where
  address : Nat
  counter : Slot
  bound : UInt32
  exit : Addr

namespace Loop

/-- The loop is in a program and its counter, zero at first, is written by nothing else. -/
structure In (loop : Loop) (p : Program) : Prop where
  found : p.code[loop.address]? = some (.loop loop.counter loop.bound loop.exit)
  alone : ∀ (pc : Nat) instruction, p.code[pc]? = some instruction →
    instruction.writes? = some loop.counter → pc = loop.address
  zero : p.globals[loop.counter.toNat]?.map Global.initial = some 0

variable {τ : Type}

/-- How often the loop is passed. -/
def passes (loop : Loop) (visits : List (Visited τ)) : Nat :=
  visits.countP fun visit => visit.pc.toNat = loop.address

/-- What the counter holds when the loop has been passed `n` times: it counts to the bound and
starts over. -/
def Counted (loop : Loop) (n : Nat) (m : Machine τ) : Prop :=
  m.globals[loop.counter.toNat]? = some (Int64.ofNat (n % (loop.bound.toNat + 1)))

/-- Where the loop goes on when it has been passed `n` times before: every round of one more pass
than the bound ends with the exit. -/
def onward (loop : Loop) (n : Nat) (pc : Addr) : Addr :=
  if n % (loop.bound.toNat + 1) = loop.bound.toNat then loop.exit else pc + 1

/-- What is visited finds the counter as counted, and the loop itself goes on as it should, where
`n` passes have come before. -/
def Obeyed (loop : Loop) (n : Nat) (visits : List (Visited τ)) : Prop :=
  ∀ earlier visit later, visits = earlier ++ visit :: later →
    loop.Counted (n + loop.passes earlier) visit.machine ∧
      (visit.pc.toNat = loop.address →
        visit.onward = some (loop.onward (n + loop.passes earlier) visit.pc))

variable {loop : Loop} {p : Program} {n : Nat}

@[simp] theorem passes_nil (loop : Loop) : loop.passes ([] : List (Visited τ)) = 0 := rfl

theorem passes_append (loop : Loop) (first second : List (Visited τ)) :
    loop.passes (first ++ second) = loop.passes first + loop.passes second := List.countP_append

theorem passes_singleton (loop : Loop) (visit : Visited τ) :
    loop.passes [visit] = if visit.pc.toNat = loop.address then 1 else 0 := by
  simp [passes, List.countP_singleton]

theorem obeyed_nil (loop : Loop) (n : Nat) : loop.Obeyed n ([] : List (Visited τ)) := by
  intro earlier visit later split
  simp at split

theorem Obeyed.append {first second : List (Visited τ)} (before : loop.Obeyed n first)
    (behind : loop.Obeyed (n + loop.passes first) second) : loop.Obeyed n (first ++ second) := by
  intro earlier visit later split
  rcases List.append_eq_append_iff.mp split with ⟨middle, rfl, rest⟩ | ⟨middle, rfl, rest⟩
  · rw [passes_append, ← Nat.add_assoc]
    exact behind middle visit later rest
  · cases middle with
    | nil =>
      have start := behind [] visit later rest.symm
      simpa [passes] using start
    | cons other middle =>
      obtain ⟨rfl, rfl⟩ := List.cons.inj rest
      exact before earlier visit middle rfl

theorem obeyed_singleton {visit : Visited τ} (counted : loop.Counted n visit.machine)
    (goes : visit.pc.toNat = loop.address → visit.onward = some (loop.onward n visit.pc)) :
    loop.Obeyed n [visit] := by
  intro earlier other later split
  cases earlier with
  | nil =>
    obtain ⟨rfl, -⟩ := List.cons.inj split
    exact ⟨counted, goes⟩
  | cons first rest => simp at split

/-- After one more pass the round is one further, or over. -/
theorem next_mod (n bound : Nat) :
    (n + 1) % (bound + 1) = if n % (bound + 1) < bound then n % (bound + 1) + 1 else 0 := by
  have small : n % (bound + 1) < bound + 1 := Nat.mod_lt n (Nat.succ_pos bound)
  rw [← Nat.mod_add_mod]
  split
  case isTrue below => exact Nat.mod_eq_of_lt (Nat.succ_lt_succ below)
  case isFalse full =>
    have last : n % (bound + 1) = bound := by omega
    rw [last, Nat.mod_self]

/-- Counters are words, and words are compared as numbers. -/
theorem ofNat_lt_ofNat_iff {count bound : Nat} (small : count < 4294967296)
    (small' : bound < 4294967296) : Int64.ofNat count < Int64.ofNat bound ↔ count < bound := by
  rw [Int64.lt_iff_toInt_lt, Int64.toInt_ofNat_of_lt (by omega), Int64.toInt_ofNat_of_lt (by omega)]
  omega

variable [Elapsed τ]

/-- One instruction: the loop itself counts on and goes where it should, any other leaves the count
alone. -/
theorem In.step (inside : loop.In p) (frame : τ) (pc : Addr) {m : Machine τ}
    (counted : loop.Counted n m) (j : Journal) :
    let result := Machine.step p frame pc m j
    loop.Counted (n + if pc.toNat = loop.address then 1 else 0) result.machine ∧
      (pc.toNat = loop.address → result.onward? = some (loop.onward n pc)) := by
  by_cases here : pc.toNat = loop.address
  · have small : n % (loop.bound.toNat + 1) < loop.bound.toNat + 1 :=
      Nat.mod_lt n (Nat.succ_pos _)
    have word := loop.bound.toNat_lt
    have room : loop.counter.toNat < m.globals.size :=
      (Array.getElem?_eq_some_iff.mp counted).1
    have read : m.read (.global loop.counter) = Int64.ofNat (n % (loop.bound.toNat + 1)) := by
      rw [Machine.read, counted]
      rfl
    have found : p.code[pc.toNat]? = some (.loop loop.counter loop.bound loop.exit) := by
      rw [here]
      exact inside.found
    have held (value : Int64) :
        (m.setGlobal loop.counter value).globals[loop.counter.toNat]? = some value :=
      Array.getElem?_setIfInBounds_self_of_lt room
    have compared := ofNat_lt_ofNat_iff (Nat.lt_of_lt_of_le small word) word
    rw [if_pos here]
    by_cases below : n % (loop.bound.toNat + 1) < loop.bound.toNat
    · rw [(Machine.StepsTo.again found (by rwa [read, compared])).step_eq, read]
      refine ⟨?_, fun _ => ?_⟩
      · rw [Counted, next_mod, if_pos below, Int64.ofNat_add]
        exact held _
      · rw [onward, if_neg (Nat.ne_of_lt below)]
        rfl
    · rw [(Machine.StepsTo.leave found (by rwa [read, compared])).step_eq]
      refine ⟨?_, fun _ => ?_⟩
      · rw [Counted, next_mod, if_neg below]
        exact held 0
      · rw [onward, if_pos (by omega)]
        rfl
  · have spared : ∀ instruction, p.code[pc.toNat]? = some instruction →
        instruction.writes? ≠ some loop.counter :=
      fun instruction found writes => here (inside.alone _ instruction found writes)
    simp only [here, if_false, Nat.add_zero, false_implies, and_true]
    rw [Counted, (Machine.stepsTo_step p frame pc m j).getElem?_globals spared]
    exact counted

/-- A turn of any length: all that is visited obeys the loop, and the count goes on behind it. -/
theorem In.run (inside : loop.In p) (frame : τ) (budget steps : Nat) (pc : Addr) {m : Machine τ}
    (counted : loop.Counted n m) (j : Journal) :
    loop.Obeyed n (Machine.visits p frame steps pc m j) ∧
      loop.Counted (n + loop.passes (Machine.visits p frame steps pc m j))
        (Machine.run p frame budget steps pc m j).2.1 := by
  induction steps generalizing n pc m j with
  | zero => exact ⟨obeyed_nil loop n, counted⟩
  | succ steps ih =>
    obtain ⟨counted', goes⟩ := inside.step frame pc counted j
    rw [Machine.visits, Machine.run]
    cases result : Machine.step p frame pc m j with
    | next pc' m' j' =>
      rw [result] at counted' goes
      rw [← passes_singleton loop ⟨pc, m, some pc'⟩] at counted'
      obtain ⟨obeyed, counted''⟩ := ih pc' counted' j'
      refine ⟨(obeyed_singleton counted goes).append obeyed, ?_⟩
      dsimp only
      rw [← List.singleton_append, passes_append, ← Nat.add_assoc]
      exact counted''
    | stop pace m' j' =>
      rw [result] at counted' goes
      rw [← passes_singleton loop ⟨pc, m, none⟩] at counted'
      exact ⟨obeyed_singleton counted goes, counted'⟩

theorem In.turn (inside : loop.In p) (frame : τ) (budget : Nat) {m : Machine τ}
    (counted : loop.Counted n m) (j : Journal) :
    loop.Obeyed n (m.turn p frame budget j) ∧
      loop.Counted (n + loop.passes (m.turn p frame budget j))
        (m.resume p frame budget j).2.1 := by
  unfold Machine.turn Machine.resume
  cases m.pc with
  | none => exact ⟨obeyed_nil loop n, counted⟩
  | some pc => exact inside.run frame budget budget pc counted j

end Loop

namespace Instance

variable {τ : Type}

variable [Elapsed τ]

/-- What an operation visits: only an update of an execution under way runs instructions. -/
def visited (i : Instance τ) (j : Journal) : Operation τ → List (Visited τ)
  | .update frame =>
    match i.phase, i.script with
    | .unloaded, _ => []
    | .finished, _ => []
    | _, none => []
    | _, some script => i.machine.turn script.program frame i.config.maxStepsPerResume j
  | _ => []

/-- What operations visit one after the other. -/
def visitedAll : List (Operation τ) → Instance τ → Journal → List (Visited τ)
  | [], _, _ => []
  | operation :: rest, i, j =>
    let (next, k) := i.perform j operation
    i.visited j operation ++ visitedAll rest next k

end Instance

namespace Loop

variable {τ : Type} {loop : Loop} {script : Script} {n : Nat} {i : Instance τ}

/-- A loop of a program that has just been loaded has not been passed. -/
theorem In.counted_bind (inside : loop.In script.program) (i : Instance τ) (registry : Registry)
    (config : Config) (j : Journal) :
    loop.Counted 0 (i.bind script registry config j).1.machine := by
  rw [Counted, Nat.zero_mod]
  simpa [Instance.bind] using inside.zero

theorem Counted.trigger (counted : loop.Counted n i.machine) (stored : i.script = some script)
    (trigger : Trigger) (j : Journal) :
    (i.trigger trigger j).1.script = some script ∧
      loop.Counted n (i.trigger trigger j).1.machine := by
  rcases i.trigger_cases trigger j with ⟨same, -⟩ | ⟨_, _, ⟨_, started⟩ | ⟨_, _, queued⟩⟩
  · rw [same]
    exact ⟨stored, counted⟩
  · rw [started]
    exact ⟨stored, counted⟩
  · rw [queued]
    exact ⟨stored, counted⟩

variable [Elapsed τ]

theorem In.update (inside : loop.In script.program) (stored : i.script = some script)
    (counted : loop.Counted n i.machine) (frame : τ) (j : Journal) :
    (i.update frame j).1.script = some script ∧
      loop.Obeyed n (i.visited j (.update frame)) ∧
      loop.Counted (n + loop.passes (i.visited j (.update frame))) (i.update frame j).1.machine := by
  unfold Instance.update Instance.visited
  have turned := inside.turn frame i.config.maxStepsPerResume counted j
  cases i.phase with
  | unloaded | finished => exact ⟨stored, obeyed_nil loop n, counted⟩
  | running | suspended =>
    rw [stored]
    refine ⟨(i.script_settle ..).trans stored, turned.1, ?_⟩
    rw [Counted, Instance.globals_settle]
    exact turned.2

theorem In.perform (inside : loop.In script.program) (stored : i.script = some script)
    (counted : loop.Counted n i.machine) {operation : Operation τ}
    (keeps : operation.config? = none) (j : Journal) :
    (i.perform j operation).1.script = some script ∧
      loop.Obeyed n (i.visited j operation) ∧
      loop.Counted (n + loop.passes (i.visited j operation)) (i.perform j operation).1.machine := by
  cases operation with
  | load | loadAsset => cases keeps
  | update frame => exact inside.update stored counted frame j
  | trigger trigger =>
    obtain ⟨stored', counted'⟩ := counted.trigger stored trigger j
    exact ⟨stored', obeyed_nil loop n, counted'⟩
  | takeCommands => exact ⟨stored, obeyed_nil loop n, counted⟩

theorem In.performAll (inside : loop.In script.program) (stored : i.script = some script)
    (counted : loop.Counted n i.machine) (operations : List (Operation τ))
    (keep : ∀ operation ∈ operations, operation.config? = none) (j : Journal) :
    loop.Obeyed n (Instance.visitedAll operations i j) ∧
      loop.Counted (n + loop.passes (Instance.visitedAll operations i j))
        (Instance.performAll operations i j).1.machine ∧
      (Instance.performAll operations i j).1.script = some script := by
  induction operations generalizing n i j with
  | nil => exact ⟨obeyed_nil loop n, counted, stored⟩
  | cons operation rest ih =>
    obtain ⟨first, others⟩ := List.forall_mem_cons.mp keep
    obtain ⟨stored', obeyed, counted'⟩ := inside.perform stored counted first j
    obtain ⟨obeyed', counted'', stored''⟩ := ih stored' counted' others _
    rw [Instance.visitedAll, Instance.performAll]
    refine ⟨obeyed.append obeyed', ?_, stored''⟩
    rw [passes_append, ← Nat.add_assoc]
    exact counted''

/-- The law of a loop, from loading its program on: whatever is asked of the instance, the counter
holds the passes of the current round, and the last pass of each round takes the exit. -/
theorem In.law (inside : loop.In script.program) (i : Instance τ) (registry : Registry)
    (config : Config) (j : Journal) (operations : List (Operation τ))
    (keep : ∀ operation ∈ operations, operation.config? = none) :
    let loaded := i.bind script registry config j
    let visits := Instance.visitedAll operations loaded.1 loaded.2
    let reached := (Instance.performAll operations loaded.1 loaded.2).1
    loop.Obeyed 0 visits ∧ loop.Counted (loop.passes visits) reached.machine ∧
      reached.script = some script := by
  intro loaded visits reached
  have law := inside.performAll rfl (inside.counted_bind i registry config j) operations keep
    loaded.2
  rwa [Nat.zero_add] at law

end Loop

end NodeScript
